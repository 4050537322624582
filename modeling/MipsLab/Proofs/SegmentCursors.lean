import MipsLab.Proofs.Layout
import MipsLab.Proofs.StatementSizes

/-!
# Location counters in words

The location counters stay within their segments, and the text counter is a multiple of four. That
holds at every point of both passes, and also right after a counter has been aligned, which is not
checked against the room: the data segment ends at a multiple of every alignment. So the counters
may as well be words. None of the sums and roundings wraps, and no alignment is out of reach.

1. `Cursor.InRange`, `Cursor.InRange.place?`, `Cursor.InRange.walk`: the bounds, and that every
   statement keeps them.
2. `Word.roundUp?`, `Statement.wordSize`, `WordCursor`: the same steps in words.
3. `WordCursor.roundUp?_data`, `WordCursor.place?_toCursor`, `WordCursor.advance?_toCursor`,
   `WordCursor.after_toCursor`: in range, words do what numbers do.
4. `Definitions.misplaced_error`: what is reported as misplaced.
5. `segment_cursors_in_range`: all of it, for every text that is short enough.
-/

namespace MipsLab

/-! ## Bounds -/

/-- The largest alignment is a multiple of all others. -/
theorem Directive.alignment_dvd (d : Directive) : d.alignment ∣ 0x10000 := by
  cases d with
  | align exponent => exact Nat.pow_dvd_pow 2 (Nat.le_of_lt_succ exponent.isLt)
  | word => exact (by decide : 4 ∣ 0x10000)
  | half => exact (by decide : 2 ∣ 0x10000)
  | text | data | globl | byte | ascii | asciiz | space => exact Nat.one_dvd _

/-- The data segment ends at a multiple of every alignment. -/
theorem Directive.alignment_dvd_end (d : Directive) :
    d.alignment ∣ Segment.data.start + segmentLimit :=
  Nat.dvd_trans d.alignment_dvd (by decide)

namespace Cursor

/-- Both counters are in the room of their segments, and instructions are aligned. -/
structure InRange (c : Cursor) : Prop where
  aligned : 4 ∣ c.text
  text : Segment.text.start ≤ c.text ∧ c.text ≤ Segment.text.start + segmentLimit
  data : Segment.data.start ≤ c.data ∧ c.data ≤ Segment.data.start + segmentLimit

/-- What does not belong into the current segment, and nothing else, has no place. -/
theorem place?_eq_none_iff {c : Cursor} {body : Option Body} :
    c.place? body = none ↔ (∃ i, body = some (.instr i) ∧ c.segment = .data) ∨
      ∃ d, body = some (.directive d) ∧ d.isData = true ∧ c.segment = .text := by
  obtain ⟨segment, text, data⟩ := c
  rcases body with - | i | d
  · simp [place?]
  · cases segment <;> simp [place?]
  · cases d <;> cases segment <;> simp [place?, Directive.isData]

namespace InRange

variable {c placed next : Cursor}

theorem initial : Cursor.initial.InRange := by
  refine ⟨?_, ?_, ?_⟩ <;> decide

theorem current (h : c.InRange) :
    c.segment.start ≤ c.current ∧ c.current ≤ c.segment.start + segmentLimit := by
  unfold Cursor.current
  cases c.segment with
  | text => exact h.text
  | data => exact h.data

/-- A place is in range before it is known whether there is room: aligning leads no further than to
the end of the segment. -/
theorem place? (h : c.InRange) {body : Option Body} (hplace : c.place? body = some placed) :
    placed.InRange := by
  unfold Cursor.place? at hplace
  split at hplace
  · obtain rfl := Option.some.inj hplace
    exact ⟨h.aligned, h.text, h.data⟩
  · obtain rfl := Option.some.inj hplace
    exact ⟨h.aligned, h.text, h.data⟩
  · next d _ _ =>
    split at hplace
    · split at hplace
      · exact nomatch hplace
      · obtain rfl := Option.some.inj hplace
        exact ⟨h.aligned, h.text, Nat.le_trans h.data.1 (le_roundUp d.alignment_pos),
          roundUp_le d.alignment_pos d.alignment_dvd_end h.data.2⟩
    · obtain rfl := Option.some.inj hplace
      exact h
  · split at hplace
    · obtain rfl := Option.some.inj hplace
      exact h
    · exact nomatch hplace
  · obtain rfl := Option.some.inj hplace
    exact h

/-- Room is made within the segment, in the text segment by whole words. -/
theorem advance? (h : c.InRange) {size : Nat} (hsize : c.segment = .text → 4 ∣ size)
    (hadvance : c.advance? size = some next) : next.InRange := by
  obtain ⟨rfl, hlimit⟩ := advance?_inv hadvance
  obtain ⟨segment, text, data⟩ := c
  cases segment with
  | text =>
    exact ⟨Nat.dvd_add h.aligned (hsize rfl), ⟨Nat.le_add_right_of_le h.text.1, hlimit⟩, h.data⟩
  | data => exact ⟨h.aligned, h.text, Nat.le_add_right_of_le h.data.1, hlimit⟩

/-- In the text segment, only instructions take room. -/
theorem dvd_byteCount {s : Statement} (hplace : c.place? s.body = some placed)
    (hsegment : placed.segment = .text) : 4 ∣ s.byteCount := by
  unfold Statement.byteCount
  cases hbody : s.body with
  | none => exact Nat.dvd_zero 4
  | some body =>
    rw [hbody] at hplace
    cases body with
    | instr i => exact Nat.dvd_mul_right 4 i.wordCount
    | directive d =>
      cases hd : d.isData with
      | true =>
        obtain ⟨rfl, hdata⟩ := place?_data hplace hd
        exact Segment.noConfusion (hsegment.symm.trans hdata)
      | false =>
        cases d with
        | text | data | globl => exact Nat.dvd_zero 4
        | _ => exact nomatch hd

theorem walk (h : c.InRange) (s : Statement) : (c.walk s).InRange := by
  unfold Cursor.walk
  cases hplace : c.place? s.body with
  | none => exact h
  | some placed =>
    have hplaced := h.place? hplace
    show ((placed.advance? s.byteCount).getD placed).InRange
    cases hadvance : placed.advance? s.byteCount with
    | none => exact hplaced
    | some next => exact hplaced.advance? (dvd_byteCount hplace) hadvance

theorem foldl_walk (h : c.InRange) (statements : List Statement) :
    (statements.foldl Cursor.walk c).InRange := by
  induction statements generalizing c with
  | nil => exact h
  | cons s statements ih => exact ih (h.walk s)

end InRange

end Cursor

/-! ## Sizes and roundings in words -/

/-- The least multiple of a word that is not below another one: nothing for zero, which has no
multiples, and nothing if it is beyond all words. -/
def Word.roundUp? (a multiple : Word) : Option Word :=
  if multiple = 0 then none
  else if a % multiple = 0 then some a
  else Address.advance? a (multiple - a % multiple).toNat

theorem Word.roundUp?_toNat {a multiple : Word} (hpos : 0 < multiple.toNat)
    (h : roundUp a.toNat multiple.toNat ≤ maxUnsigned) :
    (roundUp? a multiple).map UInt32.toNat = some (MipsLab.roundUp a.toNat multiple.toNat) := by
  have hzero : multiple ≠ 0 := by
    rintro rfl
    exact Nat.lt_irrefl 0 hpos
  have hmod : (a % multiple).toNat = a.toNat % multiple.toNat := UInt32.toNat_mod a multiple
  unfold roundUp?
  rw [if_neg hzero]
  by_cases hdvd : a.toNat % multiple.toNat = 0
  · have heq : a % multiple = 0 := UInt32.toNat_inj.mp (hmod.trans hdvd)
    rw [if_pos heq, roundUp_of_dvd hpos (Nat.dvd_of_mod_eq_zero hdvd), Option.map_some]
  · have hne : a % multiple ≠ 0 := fun heq => hdvd (hmod.symm.trans (congrArg UInt32.toNat heq))
    have hlt := Nat.mod_lt a.toNat hpos
    have hdifference : (multiple - a % multiple).toNat =
        multiple.toNat - a.toNat % multiple.toNat := by
      rw [UInt32.toNat_sub_of_le _ _ (UInt32.le_iff_toNat_le.mpr (by rw [hmod]; omega)), hmod]
    rw [roundUp_of_not_dvd hpos hdvd] at h ⊢
    rw [if_neg hne, Address.advance?, hdifference, if_pos h, Option.map_some,
      UInt32.toNat_ofNat_of_lt' (Nat.lt_succ_of_le h)]

/-- The alignment of a directive as a word. -/
def Directive.wordAlignment : Directive → Word
  | word _ => 4
  | half _ => 2
  | align exponent => 1 <<< UInt32.ofNat exponent.val
  | _ => 1

theorem Directive.wordAlignment_toNat (d : Directive) :
    d.wordAlignment.toNat = d.alignment := by
  cases d with
  | align exponent =>
    have hshift : ∀ e : Fin 17, ((1 : Word) <<< UInt32.ofNat e.val).toNat = 2 ^ e.val := by decide
    exact hshift exponent
  | _ => rfl

/-- The size of a directive as a word; what is counted and what is computed of it may wrap. -/
def Directive.wordSize : Directive → Word
  | text | data | globl _ | align _ => 0
  | word values => 4 * UInt32.ofNat values.length
  | half values => 2 * UInt32.ofNat values.length
  | byte values => UInt32.ofNat values.length
  | ascii value => UInt32.ofNat (Text.byteLength value.toList)
  | asciiz value => UInt32.ofNat (Text.byteLength value.toList) + 1
  | space size => size

def Body.wordSize : Body → Word
  | instr i => 4 * UInt32.ofNat i.wordCount
  | directive d => d.wordSize

def Statement.wordSize (s : Statement) : Word := (s.body.map Body.wordSize).getD 0

theorem Directive.wordSize_eq (d : Directive) : d.wordSize = UInt32.ofNat d.byteCount := by
  cases d with
  | text | data | globl | align | byte | ascii => rfl
  | word values => exact (UInt32.ofNat_mul 4 values.length).symm
  | half values => exact (UInt32.ofNat_mul 2 values.length).symm
  | asciiz value => exact (UInt32.ofNat_add (Text.byteLength value.toList) 1).symm
  | space size => exact (UInt32.ofNat_toNat).symm

theorem Statement.wordSize_eq (s : Statement) : s.wordSize = UInt32.ofNat s.byteCount := by
  unfold wordSize byteCount
  cases s.body with
  | none => rfl
  | some body =>
    cases body with
    | instr i => exact (UInt32.ofNat_mul 4 i.wordCount).symm
    | directive d => exact d.wordSize_eq

theorem Statement.wordSize_toNat {s : Statement} (h : s.byteCount ≤ Word.maxUnsigned) :
    s.wordSize.toNat = s.byteCount := by
  rw [s.wordSize_eq]
  exact UInt32.toNat_ofNat_of_lt' (Nat.lt_succ_of_le h)

/-! ## Counters in words -/

/-- A cursor whose counters are words. -/
structure WordCursor where
  segment : Segment
  text : Word
  data : Word
  deriving DecidableEq, Repr

namespace WordCursor

def initial : WordCursor :=
  { segment := .text
    text := UInt32.ofNat Segment.text.start
    data := UInt32.ofNat Segment.data.start }

/-- The numbers that the counters stand for. -/
def toCursor (w : WordCursor) : Cursor :=
  { segment := w.segment, text := w.text.toNat, data := w.data.toNat }

def current (w : WordCursor) : Word :=
  match w.segment with
  | .text => w.text
  | .data => w.data

def start (w : WordCursor) : Word := UInt32.ofNat w.segment.start

def moveTo (w : WordCursor) (address : Word) : WordCursor :=
  match w.segment with
  | .text => { w with text := address }
  | .data => { w with data := address }

/-- Goes to the place of a body, if it belongs into the current segment and its alignment can be
reached. -/
def place? (w : WordCursor) (body : Option Body) : Option WordCursor :=
  match body with
  | some (.directive .text) => some { w with segment := .text }
  | some (.directive .data) => some { w with segment := .data }
  | some (.directive d) =>
    if d.isData then
      match w.segment with
      | .text => none
      | .data => (Word.roundUp? w.data d.wordAlignment).map fun data => { w with data }
    else some w
  | some (.instr _) =>
    match w.segment with
    | .text => some w
    | .data => none
  | none => some w

/-- Makes room in the current segment. The sum is checked, the difference to the start may wrap. -/
def advance? (w : WordCursor) (size : Word) : Option WordCursor :=
  match Address.advance? w.current size.toNat with
  | some next =>
    if next - w.start ≤ UInt32.ofNat segmentLimit then some (w.moveTo next) else none
  | none => none

/-- Moves behind a statement. One that gets no room leaves the counters at its place. -/
def walk (w : WordCursor) (s : Statement) : WordCursor :=
  match w.place? s.body with
  | none => w
  | some placed => (placed.advance? s.wordSize).getD placed

/-- The counters behind some statements. -/
def after (statements : List Statement) : WordCursor := statements.foldl walk initial

theorem toCursor_current (w : WordCursor) : w.toCursor.current = w.current.toNat := by
  unfold current Cursor.current toCursor
  cases w.segment <;> rfl

theorem toCursor_moveTo (w : WordCursor) (address : Word) :
    (w.moveTo address).toCursor = w.toCursor.moveTo address.toNat := by
  obtain ⟨segment, text, data⟩ := w
  cases segment <;> rfl

theorem start_toNat (w : WordCursor) : w.start.toNat = w.segment.start := by
  unfold start
  cases w.segment <;> rfl

variable {w : WordCursor}

/-- Every alignment can be reached from the data counter. -/
theorem roundUp?_data (h : w.toCursor.InRange) (d : Directive) :
    (Word.roundUp? w.data d.wordAlignment).map UInt32.toNat =
      some (roundUp w.data.toNat d.alignment) := by
  have hpos := d.alignment_pos
  have hend : roundUp w.data.toNat d.alignment ≤ Segment.data.start + segmentLimit :=
    roundUp_le hpos d.alignment_dvd_end h.data.2
  rw [← d.wordAlignment_toNat] at hpos hend ⊢
  exact Word.roundUp?_toNat hpos (Nat.le_trans hend (by decide))

/-- In range, words are placed where numbers are. -/
theorem place?_toCursor (h : w.toCursor.InRange) (body : Option Body) :
    (w.place? body).map toCursor = w.toCursor.place? body := by
  obtain ⟨segment, text, data⟩ := w
  rcases body with - | i | d
  · rfl
  · cases segment <;> rfl
  · cases hd : d.isData with
    | false =>
      cases d with
      | text | data | globl => rfl
      | _ => exact nomatch hd
    | true =>
      cases segment with
      | text => cases d <;> rfl
      | data =>
        have hwords : (WordCursor.mk .data text data).place? (some (.directive d)) =
            (Word.roundUp? data d.wordAlignment).map fun data => ⟨.data, text, data⟩ := by
          cases d <;> first | rfl | exact nomatch hd
        have hnumbers : (Cursor.mk .data text.toNat data.toNat).place? (some (.directive d)) =
            some ⟨.data, text.toNat, roundUp data.toNat d.alignment⟩ := by
          cases d <;> first | rfl | exact nomatch hd
        obtain ⟨aligned, haligned, htoNat⟩ := Option.map_eq_some_iff.mp (roundUp?_data h d)
        rw [hwords, haligned]
        exact (congrArg (fun n => some (Cursor.mk .data text.toNat n)) htoNat).trans hnumbers.symm

/-- In range, words are moved on as numbers are: no sum and no difference wraps. -/
theorem advance?_toCursor (h : w.toCursor.InRange) (size : Word) :
    (w.advance? size).map toCursor = w.toCursor.advance? size.toNat := by
  have hstart : w.segment.start ≤ w.current.toNat := w.toCursor_current ▸ h.current.1
  have hend : w.segment.start + segmentLimit ≤ Word.maxUnsigned := by
    cases w.segment <;> decide
  have hlimit : (UInt32.ofNat segmentLimit).toNat = segmentLimit := rfl
  unfold advance? Cursor.advance?
  rw [toCursor_current, Address.advance?]
  by_cases hsum : w.current.toNat + size.toNat ≤ Word.maxUnsigned
  · have hnext : (UInt32.ofNat (w.current.toNat + size.toNat)).toNat =
        w.current.toNat + size.toNat := UInt32.toNat_ofNat_of_lt' (Nat.lt_succ_of_le hsum)
    have hdifference : (UInt32.ofNat (w.current.toNat + size.toNat) - w.start).toNat =
        w.current.toNat + size.toNat - w.segment.start := by
      rw [UInt32.toNat_sub_of_le _ _ (UInt32.le_iff_toNat_le.mpr ?_), hnext, start_toNat]
      rw [hnext, start_toNat]
      exact Nat.le_add_right_of_le hstart
    simp only [if_pos hsum, UInt32.le_iff_toNat_le, hdifference, hlimit]
    show _ = if _ - w.segment.start ≤ segmentLimit then _ else _
    split
    · rw [Option.map_some, toCursor_moveTo, hnext]
    · rfl
  · -- A sum that is no word is beyond the end of the segment.
    rw [if_neg hsum]
    refine (if_neg ?_).symm
    show ¬ w.current.toNat + size.toNat - w.segment.start ≤ segmentLimit
    omega

theorem walk_toCursor (h : w.toCursor.InRange) {s : Statement}
    (hsize : s.wordSize.toNat = s.byteCount) : (w.walk s).toCursor = w.toCursor.walk s := by
  have hplace := place?_toCursor h s.body
  unfold walk Cursor.walk
  cases hplaced : w.place? s.body with
  | none =>
    rw [hplaced] at hplace
    rw [← hplace]
    rfl
  | some placed =>
    rw [hplaced] at hplace
    have hadvance := advance?_toCursor (h.place? hplace.symm) s.wordSize
    rw [← hplace, ← hsize]
    show ((placed.advance? s.wordSize).getD placed).toCursor =
      (placed.toCursor.advance? s.wordSize.toNat).getD placed.toCursor
    rw [← hadvance]
    cases placed.advance? s.wordSize <;> rfl

theorem foldl_walk_toCursor (h : w.toCursor.InRange) {statements : List Statement}
    (hsize : ∀ s ∈ statements, s.wordSize.toNat = s.byteCount) :
    (statements.foldl walk w).toCursor = statements.foldl Cursor.walk w.toCursor := by
  induction statements generalizing w with
  | nil => rfl
  | cons s statements ih =>
    have hs := walk_toCursor h (hsize s List.mem_cons_self)
    rw [List.foldl_cons, List.foldl_cons, ← hs]
    exact ih (hs ▸ h.walk s) fun t ht => hsize t (List.mem_cons_of_mem s ht)

/-- Behind statements whose sizes are words, the counters in words are the counters in numbers. -/
theorem after_toCursor {statements : List Statement}
    (hsize : ∀ s ∈ statements, s.wordSize.toNat = s.byteCount) :
    (after statements).toCursor = statements.foldl Cursor.walk .initial :=
  foldl_walk_toCursor (w := initial) Cursor.InRange.initial hsize

end WordCursor

/-! ## What is misplaced -/

namespace Definitions

variable {d : Definitions} {s : Statement} {error : AssemblyError}

theorem foldl_define_kept_error {address : Address} {labels : List Label}
    (h : error ∈ (labels.foldl (define address) d).errors.toList)
    (hcause : error.cause ≠ .duplicateLabel) : error ∈ d.errors.toList := by
  have hstep (d : Definitions) (l : Label) (h : error ∈ (define address d l).errors.toList) :
      error ∈ d.errors.toList ∨ ∃ first : Label,
        error = ⟨.duplicateLabel, .two l.span first.span⟩ := define_error h
  rcases exists_of_foldl errors hstep h with h | ⟨l, -, first, rfl⟩
  · exact h
  · exact absurd rfl hcause

theorem advance_kept_error (h : error ∈ (d.advance s).errors.toList)
    (hcause : error.cause ≠ .segmentTooLarge) : error ∈ d.errors.toList := by
  unfold advance at h
  split at h
  · exact h
  · split at h
    · exact h
    · rcases report_error h with h | rfl
      · exact h
      · exact absurd rfl hcause

/-- A statement is reported as misplaced only if it has no place. -/
theorem add_misplaced_error (h : error ∈ (d.add s).errors.toList)
    (hcause : error.cause = .misplacedDirective) :
    error ∈ d.errors.toList ∨
      d.cursor.place? s.body = none ∧ error = .single (misplaced s.body) s.span := by
  have hduplicate : error.cause ≠ .duplicateLabel := by
    rw [hcause]
    nofun
  unfold add at h
  cases hplace : d.cursor.place? s.body with
  | some placed =>
    rw [hplace] at h
    have hdefined := advance_kept_error h (by rw [hcause]; nofun)
    rw [declareGlobal_errors] at hdefined
    exact .inl (foldl_define_kept_error (d := { d with cursor := placed }) hdefined hduplicate)
  | none =>
    rw [hplace] at h
    exact (report_error (foldl_define_kept_error h hduplicate)).imp_right fun herror =>
      ⟨rfl, herror⟩

/-- What is reported as a misplaced directive is a data directive in the text segment. -/
theorem misplaced_error {statements : List Statement}
    (h : error ∈ (ofStatements statements).errors.toList)
    (hcause : error.cause = .misplacedDirective) :
    ∃ before s behind d, statements = before ++ s :: behind ∧
      (ofStatements before).cursor.segment = .text ∧ s.body = some (.directive d) ∧
      d.isData = true ∧ error = .single .misplacedDirective s.span := by
  induction statements using List.reverseRecOn with
  | nil => exact absurd h List.not_mem_nil
  | append_singleton init s ih =>
    rw [ofStatements_append] at h
    rcases add_misplaced_error h hcause with h | ⟨hplace, rfl⟩
    · obtain ⟨before, t, behind, d, rfl, hfound⟩ := ih h
      exact ⟨before, t, behind ++ [s], d, by rw [List.append_assoc, List.cons_append], hfound⟩
    · rcases Cursor.place?_eq_none_iff.mp hplace with ⟨i, hbody, -⟩ | ⟨d, hbody, hd, hsegment⟩
      · rw [hbody] at hcause
        exact nomatch hcause
      · rw [hbody]
        exact ⟨init, s, [], d, rfl, hsegment, hbody, hd, rfl⟩

end Definitions

/-! ## Source texts -/

/-- The location counters of a source text of less than two gibibytes never leave their segments, in
none of the passes, and neither do the places that statements are aligned to, whether or not there
is room for them. So the counters can be words: nothing wraps, sizes neither, and every alignment is
reached. What has no place does not belong into its segment, and what is reported as a misplaced
directive is a data directive in the text segment. Text and data, filled up to whole words, are no
larger than segments can be. -/
theorem segment_cursors_in_range {source : Source} (h : Text.byteLength source.chars < 2 ^ 31) :
    let statements := (parse source.chars).1
    let p := (assemble source).program
    (∀ before, before <+: statements →
      let w := WordCursor.after before
      w.toCursor.InRange ∧ (Definitions.ofStatements before).cursor = w.toCursor ∧
        (Emission.ofStatements p.symbols source before).cursor = w.toCursor) ∧
    (∀ before s behind, statements = before ++ s :: behind →
      let w := WordCursor.after before
      (w.place? s.body).map WordCursor.toCursor = w.toCursor.place? s.body ∧
      (w.place? s.body = none ↔ (∃ i, s.body = some (.instr i) ∧ w.segment = .data) ∨
        ∃ d, s.body = some (.directive d) ∧ d.isData = true ∧ w.segment = .text) ∧
      s.wordSize.toNat = s.byteCount ∧
      ∀ placed, w.place? s.body = some placed → placed.toCursor.InRange ∧
        (placed.advance? s.wordSize).map WordCursor.toCursor =
          placed.toCursor.advance? s.byteCount) ∧
    (∀ e ∈ source.assemblyErrors, e.cause = .misplacedDirective →
      ∃ before s behind d, statements = before ++ s :: behind ∧
        (WordCursor.after before).segment = .text ∧ s.body = some (.directive d) ∧
        d.isData = true ∧ e = .single .misplacedDirective s.span) ∧
    4 * p.text.size ≤ segmentLimit ∧ roundUp p.data.size 4 ≤ segmentLimit := by
  intro statements p
  have hsize : ∀ s ∈ statements, s.wordSize.toNat = s.byteCount := fun s hs =>
    Statement.wordSize_toNat <| Nat.le_trans (Statement.byteCount_le hs)
      (Nat.max_le.mpr ⟨Nat.le_refl _, by unfold Word.maxUnsigned; omega⟩)
  have hafter {before : List Statement} (hbefore : ∀ s ∈ before, s ∈ statements) :
      (WordCursor.after before).toCursor = before.foldl Cursor.walk .initial :=
    WordCursor.after_toCursor fun s hs => hsize s (hbefore s hs)
  have hrange {before : List Statement} (hbefore : ∀ s ∈ before, s ∈ statements) :
      (WordCursor.after before).toCursor.InRange :=
    hafter hbefore ▸ Cursor.InRange.initial.foldl_walk before
  have hsplit {before : List Statement} {s : Statement} {behind : List Statement}
      (hstatements : statements = before ++ s :: behind) : ∀ t ∈ before, t ∈ statements :=
    fun t ht => hstatements ▸ List.mem_append_left _ ht
  refine ⟨?_, ?_, ?_, ?_⟩
  · intro before hprefix w
    have hbefore : ∀ s ∈ before, s ∈ statements := fun s hs => hprefix.subset hs
    have hw : w.toCursor = before.foldl Cursor.walk .initial := hafter hbefore
    exact ⟨hrange hbefore, (Definitions.ofStatements_walk before).trans hw.symm,
      (Emission.ofStatements_walk _ source before).trans hw.symm⟩
  · intro before s behind hstatements w
    have hw : w.toCursor.InRange := hrange (hsplit hstatements)
    have hs : s.wordSize.toNat = s.byteCount :=
      hsize s (hstatements ▸ List.mem_append_right _ List.mem_cons_self)
    have hplace := WordCursor.place?_toCursor hw s.body
    refine ⟨hplace, ?_, hs, ?_⟩
    · rw [← Option.map_eq_none_iff (f := WordCursor.toCursor), hplace]
      exact Cursor.place?_eq_none_iff
    · intro placed hplaced
      rw [hplaced] at hplace
      have hrange := hw.place? hplace.symm
      exact ⟨hrange, hs ▸ WordCursor.advance?_toCursor hrange s.wordSize⟩
  · intro e he hcause
    rw [Source.assemblyErrors, Program.errors_eq] at he
    rcases List.mem_append.mp he with he | he
    · obtain ⟨before, s, behind, d, hstatements, hsegment, hfound⟩ :=
        Definitions.misplaced_error he hcause
      rw [Definitions.ofStatements_walk, ← hafter (hsplit hstatements)] at hsegment
      exact ⟨before, s, behind, d, hstatements, hsegment, hfound⟩
    · have hnot := (Program.laterErrors_cause he).2
      rw [hcause] at hnot
      exact Bool.noConfusion hnot
  · obtain ⟨htext, hdata⟩ := Program.ofStatements_fits statements source
    exact ⟨htext, roundUp_le (by decide) (by decide) hdata⟩

/-- Aligning leads right to the end of the data segment, where a byte has a place and no room. -/
theorem segment_cursors_in_range_end :
    let source : Source := .ofString ".data\n.space 16777215\n.align 16\n.byte 1"
    let statements := (parse source.chars).1
    Text.byteLength source.chars < 2 ^ 31 ∧
      (Definitions.ofStatements statements).cursor = ⟨.data, 0x00400000, 0x11010000⟩ ∧
      (⟨.data, 0x00400000, 0x11010000⟩ : Cursor).InRange := by
  intro source statements
  have hshort : Text.byteLength source.chars < 2 ^ 31 := by decide +kernel
  have hafter : (WordCursor.after statements).toCursor = ⟨.data, 0x00400000, 0x11010000⟩ := by
    decide +kernel
  obtain ⟨hrange, hcursor, -⟩ := (segment_cursors_in_range hshort).1 statements List.prefix_rfl
  rw [hafter] at hrange hcursor
  exact ⟨hshort, hcursor, hrange⟩

end MipsLab
