import Mathlib.Data.List.Induction
import MipsLab.Assembly
import MipsLab.Proofs.Labels

/-!
# Where statements are placed

The second pass puts every statement where the first pass has put its labels, and what it puts there
stays there: later statements come behind it.

1. `Cursor.placed?_range`: the room of a statement lies between the counters before and behind it.
2. `Emission.WellPlaced`: the counters and the contents of the segments belong together.
3. `Program.Places`: what a program has to hold of a statement that is put at an address.
4. `passes_agree`: a program holds this of all its statements, they do not overlap, and all bytes of
   data that belong to none of them are zero.
-/

namespace MipsLab

/-! ## Room -/

theorem Directive.alignment_pos (d : Directive) : 0 < d.alignment := by
  cases d with
  | align exponent => exact Nat.two_pow_pos _
  | _ => exact Nat.succ_pos _

namespace Cursor

/-- The next free address of a segment. -/
def next (c : Cursor) : Segment → Nat
  | .text => c.text
  | .data => c.data

theorem current_eq (c : Cursor) : c.current = c.next c.segment := by
  unfold current next
  cases c.segment <;> rfl

theorem initial_next (segment : Segment) : initial.next segment = segment.start := by
  cases segment <;> rfl

theorem moveTo_next (c : Cursor) (address : Nat) (segment : Segment) :
    (c.moveTo address).next segment = if segment = c.segment then address else c.next segment := by
  obtain ⟨current, text, data⟩ := c
  cases current <;> cases segment <;> rfl

/-- Going to the place of a body leaves the text counter where it is, and does not move the data
counter back. -/
theorem place?_counters {c placed : Cursor} {body : Option Body}
    (h : c.place? body = some placed) : placed.text = c.text ∧ c.data ≤ placed.data := by
  unfold place? at h
  split at h
  · obtain rfl := Option.some.inj h
    exact ⟨rfl, Nat.le_refl _⟩
  · obtain rfl := Option.some.inj h
    exact ⟨rfl, Nat.le_refl _⟩
  · next d _ _ =>
    split at h
    · split at h
      · exact nomatch h
      · obtain rfl := Option.some.inj h
        exact ⟨rfl, le_roundUp d.alignment_pos⟩
    · obtain rfl := Option.some.inj h
      exact ⟨rfl, Nat.le_refl _⟩
  · split at h
    · obtain rfl := Option.some.inj h
      exact ⟨rfl, Nat.le_refl _⟩
    · exact nomatch h
  · obtain rfl := Option.some.inj h
    exact ⟨rfl, Nat.le_refl _⟩

theorem place?_next {c placed : Cursor} {body : Option Body} (h : c.place? body = some placed)
    (segment : Segment) : c.next segment ≤ placed.next segment := by
  obtain ⟨htext, hdata⟩ := place?_counters h
  cases segment with
  | text => exact Nat.le_of_eq htext.symm
  | data => exact hdata

/-- The counter behind a statement that is placed: behind the room of the statement in its segment,
and unmoved in the other one. -/
theorem walk_next {c placed : Cursor} {s : Statement} (h : c.placed? s = some placed)
    (segment : Segment) :
    (c.walk s).next segment =
      if segment = placed.segment then placed.current + s.byteCount else placed.next segment := by
  obtain ⟨-, hadvance⟩ := placed?_inv h
  rw [(advance?_inv hadvance).1, moveTo_next]

theorem next_le_walk (c : Cursor) (s : Statement) (segment : Segment) :
    c.next segment ≤ (c.walk s).next segment := by
  unfold walk
  cases hplace : c.place? s.body with
  | none => exact Nat.le_refl _
  | some placed =>
    have hle := place?_next hplace segment
    simp only
    cases hadvance : placed.advance? s.byteCount with
    | none => exact hle
    | some behind =>
      rw [Option.getD_some, (advance?_inv hadvance).1, moveTo_next]
      split
      · next hsegment =>
        rw [hsegment, ← current_eq] at hle
        rw [hsegment]
        omega
      · exact hle

theorem next_le_foldl_walk (c : Cursor) (statements : List Statement) (segment : Segment) :
    c.next segment ≤ (statements.foldl walk c).next segment := by
  induction statements generalizing c with
  | nil => exact Nat.le_refl _
  | cons s statements ih => exact Nat.le_trans (c.next_le_walk s segment) (ih (c.walk s))

/-- The room of a statement lies behind the counter before it and in front of the counter behind it,
and within its segment. -/
theorem placed?_range {c placed : Cursor} {s : Statement} (h : c.placed? s = some placed) :
    c.next placed.segment ≤ placed.current ∧
      (c.walk s).next placed.segment = placed.current + s.byteCount ∧
      placed.current + s.byteCount ≤ placed.segment.start + segmentLimit := by
  obtain ⟨hplace, hadvance⟩ := placed?_inv h
  refine ⟨?_, by rw [walk_next h, if_pos rfl], (advance?_inv hadvance).2⟩
  rw [current_eq]
  exact place?_next hplace placed.segment

theorem walk_text_of_not_placed {c : Cursor} {s : Statement} (h : c.placed? s = none) :
    (c.walk s).text = c.text := by
  unfold placed? at h
  unfold walk
  cases hplace : c.place? s.body with
  | none => rfl
  | some placed =>
    rw [hplace, Option.bind_some, Option.map_eq_none_iff] at h
    simp only
    rw [h, Option.getD_none]
    exact (place?_counters hplace).1

/-- What it takes for a statement to be placed: an instruction is in the text segment, a data
directive in the data segment, and everything else takes no room. -/
theorem placed?_cases {c placed : Cursor} {s : Statement} (h : c.placed? s = some placed) :
    (∃ i, s.body = some (.instr i) ∧ c.segment = .text ∧ placed = c) ∨
      (∃ d, s.body = some (.directive d) ∧ d.isData = true ∧ c.segment = .data ∧
        placed = { c with data := roundUp c.data d.alignment }) ∨
      (s.isData = false ∧ s.byteCount = 0 ∧ (∀ symbols, s.data symbols = []) ∧
        (∀ symbols address, s.instrs symbols address = []) ∧
        placed.text = c.text ∧ placed.data = c.data) := by
  obtain ⟨hplace, -⟩ := placed?_inv h
  unfold Statement.isData Statement.byteCount Statement.data Statement.instrs
  cases hbody : s.body with
  | none =>
    rw [hbody] at hplace
    obtain rfl := Option.some.inj hplace
    exact .inr (.inr ⟨rfl, rfl, fun _ => rfl, fun _ _ => rfl, rfl, rfl⟩)
  | some body =>
    rw [hbody] at hplace
    cases body with
    | instr i =>
      obtain ⟨rfl, hsegment⟩ := place?_instr hplace
      exact .inl ⟨i, rfl, hsegment, rfl⟩
    | directive d =>
      cases hd : d.isData with
      | true =>
        obtain ⟨hplaced, hsegment⟩ := place?_data hplace hd
        exact .inr (.inl ⟨d, rfl, hd, hsegment, hplaced⟩)
      | false =>
        cases d with
        | text | data | globl =>
          obtain rfl := Option.some.inj hplace
          exact .inr (.inr ⟨hd, rfl, fun _ => rfl, fun _ _ => rfl, rfl, rfl⟩)
        | _ => exact nomatch hd

end Cursor

/-! ## Counters and contents -/

namespace Emission

variable {symbols : SymbolTable} {source : Source} {e : Emission} {s : Statement}

/-- The counters and the contents of the segments belong together: the instructions fill the text
segment up to its counter, and the bytes end before the data counter. -/
structure WellPlaced (e : Emission) : Prop where
  text : e.cursor.text = Segment.text.start + 4 * e.text.size
  data : Segment.data.start + e.data.size ≤ e.cursor.data

theorem add_text_size {placed : Cursor} (h : e.cursor.placed? s = some placed) :
    (e.add symbols source s).text.size =
      e.text.size + (s.instrs symbols placed.current).length := by
  rw [← Array.length_toList, (add_code symbols source h).1, List.length_append, Array.length_toList]

theorem add_data_size {placed : Cursor} (h : e.cursor.placed? s = some placed)
    (hdata : Segment.data.start + e.data.size ≤ placed.data) :
    (e.add symbols source s).data.size = e.data.size +
      (if s.isData then placed.data - Segment.data.start - e.data.size else 0) +
      (s.data symbols).length := by
  rw [← Bytes.contents_length, add_data h hdata, List.length_append, List.length_append,
    List.length_replicate, Bytes.contents_length]

/-- The text counter moves on with the instructions, and the data counter with the bytes and the
padding before them. -/
theorem walk_counters (symbols : SymbolTable) {placed : Cursor}
    (h : e.cursor.placed? s = some placed) :
    (e.cursor.walk s).text =
      e.cursor.text + 4 * (s.instrs symbols placed.current).length ∧
    (s.isData = true → (e.cursor.walk s).data = placed.data + (s.data symbols).length) ∧
    (s.isData = false → s.data symbols = []) := by
  have htext := Cursor.walk_next h .text
  have hdata := Cursor.walk_next h .data
  rcases Cursor.placed?_cases h with ⟨i, hbody, hsegment, rfl⟩ | ⟨d, hbody, hd, hsegment, rfl⟩ |
    ⟨hnot, hzero, hnodata, hnocode, htext', -⟩
  · have hlength : (s.instrs symbols e.cursor.current).length = i.wordCount := by
      rw [Statement.instrs, hbody]
      exact (i.emitted_isExpansion _ _ _).2
    have hcount : s.byteCount = 4 * i.wordCount := by rw [Statement.byteCount, hbody]; rfl
    have hisData : s.isData = false := by rw [Statement.isData, hbody]
    rw [hsegment, if_pos rfl, hcount, Cursor.current_eq, hsegment] at htext
    refine ⟨by rw [hlength]; exact htext, fun htrue => Bool.noConfusion (hisData.symm.trans htrue),
      fun _ => by rw [Statement.data, hbody]⟩
  · have hlength : (s.data symbols).length = d.byteCount := by
      rw [Statement.data, hbody]
      exact d.image_length symbols
    have hcount : s.byteCount = d.byteCount := by rw [Statement.byteCount, hbody]; rfl
    have hisData : s.isData = true := by rw [Statement.isData, hbody]; exact hd
    have hnocode (address : Nat) : s.instrs symbols address = [] := by
      rw [Statement.instrs, hbody]
    rw [if_neg (by rw [hsegment]; decide)] at htext
    rw [if_pos hsegment.symm, hcount, Cursor.current_eq, hsegment] at hdata
    refine ⟨by rw [hnocode]; exact htext, fun _ => by rw [hlength]; exact hdata,
      fun hfalse => Bool.noConfusion (hisData.symm.trans hfalse)⟩
  · rw [hnocode]
    refine ⟨?_, fun htrue => Bool.noConfusion (hnot.symm.trans htrue), fun _ => hnodata symbols⟩
    have hnext : (e.cursor.walk s).next .text = placed.next .text := by
      rw [htext]
      split
      · next hsegment => rw [hzero, Cursor.current_eq, ← hsegment, Nat.add_zero]
      · rfl
    exact hnext.trans htext'

/-- Every statement keeps counters and contents together. -/
theorem add_wellPlaced (h : e.WellPlaced) (s : Statement) :
    (e.add symbols source s).WellPlaced := by
  have hmono : e.cursor.data ≤ (e.cursor.walk s).data := e.cursor.next_le_walk s .data
  cases hplaced : e.cursor.placed? s with
  | none =>
    obtain ⟨htext, -, hdata⟩ := add_of_not_placed symbols source hplaced
    constructor
    · rw [add_cursor, htext, Cursor.walk_text_of_not_placed hplaced]
      exact h.text
    · rw [add_cursor, hdata]
      exact Nat.le_trans h.data hmono
  | some placed =>
    have hle := (Cursor.place?_counters (Cursor.placed?_inv hplaced).1).2
    have hroom : Segment.data.start + e.data.size ≤ placed.data := Nat.le_trans h.data hle
    obtain ⟨htext, hdata, hnodata⟩ := walk_counters symbols hplaced
    constructor
    · rw [add_cursor, htext, add_text_size hplaced, h.text]
      omega
    · rw [add_cursor, add_data_size hplaced hroom]
      cases hs : s.isData with
      | true =>
        rw [hdata hs, if_pos rfl]
        omega
      | false =>
        rw [hnodata hs, if_neg nofun, List.length_nil]
        exact Nat.le_trans h.data hmono

theorem ofStatements_wellPlaced (symbols : SymbolTable) (source : Source)
    (statements : List Statement) : (ofStatements symbols source statements).WellPlaced := by
  have hstart : WellPlaced {} := ⟨rfl, Nat.le_refl _⟩
  exact foldl_add_induction (P := WellPlaced) (fun _ s h => add_wellPlaced h s) hstart statements

/-- A statement is put behind what is there. -/
theorem prefix_add (symbols : SymbolTable) (source : Source) (h : e.WellPlaced) (s : Statement) :
    e.text.toList <+: (e.add symbols source s).text.toList ∧
      e.lines.toList <+: (e.add symbols source s).lines.toList ∧
      Bytes.contents e.data <+: Bytes.contents (e.add symbols source s).data := by
  cases hplaced : e.cursor.placed? s with
  | none =>
    obtain ⟨htext, hlines, hdata⟩ := add_of_not_placed symbols source hplaced
    rw [htext, hlines, hdata]
    exact ⟨List.prefix_rfl, List.prefix_rfl, List.prefix_rfl⟩
  | some placed =>
    have hle := (Cursor.place?_counters (Cursor.placed?_inv hplaced).1).2
    obtain ⟨htext, hlines⟩ := add_code symbols source hplaced
    rw [htext, hlines, add_data hplaced (Nat.le_trans h.data hle), List.append_assoc]
    exact ⟨List.prefix_append _ _, List.prefix_append _ _, List.prefix_append _ _⟩

theorem prefix_foldl_add (symbols : SymbolTable) (source : Source) (h : e.WellPlaced)
    (statements : List Statement) :
    e.text.toList <+: (statements.foldl (add symbols source) e).text.toList ∧
      e.lines.toList <+: (statements.foldl (add symbols source) e).lines.toList ∧
      Bytes.contents e.data <+:
        Bytes.contents (statements.foldl (add symbols source) e).data := by
  induction statements generalizing e with
  | nil => exact ⟨List.prefix_rfl, List.prefix_rfl, List.prefix_rfl⟩
  | cons s statements ih =>
    obtain ⟨htext, hlines, hdata⟩ := prefix_add symbols source h s
    obtain ⟨htext', hlines', hdata'⟩ := ih (add_wellPlaced h s)
    exact ⟨htext.trans htext', hlines.trans hlines', hdata.trans hdata'⟩

/-- What is there before a statement that is placed, and what the statement puts behind it, stands
at the start of the contents in the end. -/
theorem prefix_of_placed {placed : Cursor} (h : e.WellPlaced)
    (hplaced : e.cursor.placed? s = some placed) (behind : List Statement) :
    e.text.toList ++ s.instrs symbols placed.current <+:
        (behind.foldl (add symbols source) (e.add symbols source s)).text.toList ∧
      e.lines.toList ++ s.lines symbols source placed.current <+:
        (behind.foldl (add symbols source) (e.add symbols source s)).lines.toList ∧
      Bytes.contents e.data ++
          List.replicate (if s.isData then placed.data - Segment.data.start - e.data.size else 0) 0
          ++ s.data symbols <+:
        Bytes.contents (behind.foldl (add symbols source) (e.add symbols source s)).data := by
  have hle := (Cursor.place?_counters (Cursor.placed?_inv hplaced).1).2
  obtain ⟨htext, hlines⟩ := add_code symbols source hplaced
  rw [← htext, ← hlines, ← add_data hplaced (Nat.le_trans h.data hle)]
  exact prefix_foldl_add symbols source (add_wellPlaced h s) behind

end Emission

/-! ## What a program holds of a statement -/

/-- A statement with others before it is put at an address by the second pass. -/
structure Emits (statements : List Statement) (source : Source) (before : List Statement)
    (s : Statement) (address : Nat) : Prop where
  stands : before ++ [s] <+: statements
  placed : ((Emission.ofStatements (Definitions.ofStatements statements).table source
    before).cursor.placed? s).map Cursor.current = some address

/-- What a program holds of a statement that is put at an address, with others before it. -/
structure Program.Places (p : Program) (before : List Statement) (s : Statement) (address : Nat) :
    Prop where
  /-- The statement ends before the last address. -/
  fits : address + s.byteCount < 0x100000000
  /-- The labels that are first defined here have this address. -/
  labels : ∀ l ∈ s.labels, (∀ t ∈ before, t.defines l.name = false) →
    (p.symbols.address? l.name).map UInt32.toNat = some address
  /-- An instruction takes as many words as its kind needs, which hold its expansion or do
  nothing. -/
  instr : ∀ i, s.body = some (.instr i) →
    let instrs := i.emitted (UInt32.ofNat address) s.span p.symbols
    instrs.length = i.wordCount ∧
      ∀ k, k < i.wordCount → p.instrAt? (UInt32.ofNat (address + 4 * k)) = instrs[k]? ∧
        p.lineAt? (UInt32.ofNat (address + 4 * k)) = some (p.source.lineOf s.span.start + 1)
  /-- A data directive takes as many bytes as its kind needs, which hold its image. -/
  data : ∀ d, s.body = some (.directive d) → d.isData = true →
    Segment.data.start ≤ address ∧
      address - Segment.data.start + d.byteCount ≤ p.data.size ∧
      (d.image p.symbols).length = d.byteCount ∧
      Bytes.slice p.data (address - Segment.data.start) d.byteCount = d.image p.symbols

/-- An index is found at its address. -/
theorem Program.index?_address (p : Program) {i : Nat}
    (h : Segment.text.start + 4 * i < 0x100000000) :
    p.index? (UInt32.ofNat (Segment.text.start + 4 * i)) =
      if i < p.text.size then some i else none := by
  have hnat : (UInt32.ofNat (Segment.text.start + 4 * i)).toNat = Segment.text.start + 4 * i :=
    UInt32.toNat_ofNat_of_lt' h
  have haligned : Address.isAligned (UInt32.ofNat (Segment.text.start + 4 * i)) 4 = true := by
    have hstart : Segment.text.start = 0x00400000 := rfl
    rw [Address.isAligned_iff, hnat]
    omega
  have hdiv : (Segment.text.start + 4 * i - Segment.text.start) / 4 = i := by omega
  unfold index?
  rw [hnat, hdiv]
  by_cases hi : i < p.text.size
  · rw [if_pos ⟨Nat.le_add_right _ _, haligned, hi⟩, if_pos hi]
  · rw [if_neg fun hin => hi hin.2.2, if_neg hi]

/-- The instruction with an index is found at its address. -/
theorem Program.instrAt?_index (p : Program) {i : Nat}
    (h : Segment.text.start + 4 * i < 0x100000000) :
    p.instrAt? (UInt32.ofNat (Segment.text.start + 4 * i)) = p.text[i]? := by
  unfold instrAt?
  rw [p.index?_address h]
  split
  · rfl
  · rw [Option.bind_none, Array.getElem?_eq_none (by omega)]

/-- So is the line with an index, as there are as many lines as instructions. -/
theorem Program.lineAt?_index {p : Program} (hsize : p.lines.size = p.text.size) {i : Nat}
    (h : Segment.text.start + 4 * i < 0x100000000) :
    p.lineAt? (UInt32.ofNat (Segment.text.start + 4 * i)) = p.lines[i]? := by
  unfold lineAt?
  rw [p.index?_address h]
  split
  · rfl
  · rw [Option.bind_none, Array.getElem?_eq_none (by omega)]

section Emits

variable {statements before : List Statement} {source : Source} {s : Statement} {address : Nat}

theorem Emits.split (h : Emits statements source before s address) :
    ∃ behind, statements = before ++ s :: behind := by
  obtain ⟨behind, hbehind⟩ := h.stands
  rw [List.append_assoc, List.singleton_append] at hbehind
  exact ⟨behind, hbehind.symm⟩

/-- What the second pass has done when it comes to a statement that it emits, and what of it and of
the statement is there in the end. -/
theorem Emits.emission (h : Emits statements source before s address) :
    let symbols := (Definitions.ofStatements statements).table
    let e := Emission.ofStatements symbols source before
    let final := Emission.ofStatements symbols source statements
    ∃ placed, e.cursor.placed? s = some placed ∧ placed.current = address ∧
      e.text.toList ++ s.instrs symbols address <+: final.text.toList ∧
      e.lines.toList ++ s.lines symbols source address <+: final.lines.toList ∧
      Bytes.contents e.data ++
          List.replicate (if s.isData then placed.data - Segment.data.start - e.data.size else 0) 0
          ++ s.data symbols <+: Bytes.contents final.data := by
  intro symbols e final
  obtain ⟨behind, hbehind⟩ := h.split
  obtain ⟨placed, hplaced, rfl⟩ := Option.map_eq_some_iff.mp h.placed
  have hwell := Emission.ofStatements_wellPlaced symbols source before
  have hfinal : final = behind.foldl (Emission.add symbols source) (e.add symbols source s) := by
    show Emission.ofStatements symbols source statements = _
    rw [hbehind, Emission.ofStatements, List.foldl_append, List.foldl_cons]
    rfl
  rw [hfinal]
  exact ⟨placed, hplaced, rfl, Emission.prefix_of_placed hwell hplaced behind⟩

theorem Emits.fits (h : Emits statements source before s address) :
    address + s.byteCount < 0x100000000 := by
  obtain ⟨placed, hplaced, rfl, -⟩ := h.emission
  have hrange := (Cursor.placed?_range hplaced).2.2
  have hlimit : placed.segment.start + segmentLimit < 0x100000000 := by
    cases placed.segment <;> decide
  omega

/-- The first pass is at the same place when it comes to a statement that the second pass puts
anywhere, also if there is no room for it. -/
theorem address?_of_place? (hstands : before ++ [s] <+: statements) {placed : Cursor}
    (hplace : (Emission.ofStatements (Definitions.ofStatements statements).table source
      before).cursor.place? s.body = some placed) {name : String}
    (hs : s.defines name = true) (hbefore : ∀ t ∈ before, t.defines name = false) :
    (Definitions.ofStatements statements).table.address? name =
      some (UInt32.ofNat placed.current) := by
  obtain ⟨behind, hbehind⟩ := hstands
  rw [List.append_assoc, List.singleton_append] at hbehind
  have haddress := Definitions.address?_first behind hbefore hs
  rwa [hbehind, Definitions.ofStatements_cursor (Definitions.ofStatements statements).table source,
    hplace, Option.getD_some] at haddress

theorem Emits.label (h : Emits statements source before s address) {name : String}
    (hs : s.defines name = true) (hbefore : ∀ t ∈ before, t.defines name = false) :
    ((Definitions.ofStatements statements).table.address? name).map UInt32.toNat =
      some address := by
  have hlt : address < UInt32.size := Nat.lt_of_le_of_lt (Nat.le_add_right _ _) h.fits
  obtain ⟨placed, hplaced, rfl, -⟩ := h.emission
  rw [address?_of_place? h.stands (Cursor.placed?_inv hplaced).1 hs hbefore, Option.map_some,
    UInt32.toNat_ofNat_of_lt' hlt]

/-- What stands behind a list, with more behind it. -/
theorem getElem?_between {α : Type} {front middle rest : List α} {k : Nat}
    (hk : k < middle.length) :
    (front ++ middle ++ rest)[front.length + k]? = middle[k]? := by
  rw [List.append_assoc, List.getElem?_append_right (Nat.le_add_right _ _),
    Nat.add_sub_cancel_left, List.getElem?_append_left hk]

/-- The instructions of the statement stand at its address, each with its line. -/
theorem Emits.code (h : Emits statements source before s address) {i : SourceInstr}
    (hbody : s.body = some (.instr i)) {k : Nat} (hk : k < i.wordCount) :
    let p := (Program.ofStatements statements source).1
    p.instrAt? (UInt32.ofNat (address + 4 * k)) =
        (i.emitted (UInt32.ofNat address) s.span p.symbols)[k]? ∧
      p.lineAt? (UInt32.ofNat (address + 4 * k)) = some (source.lineOf s.span.start + 1) := by
  intro p
  have hfits := h.fits
  obtain ⟨placed, hplaced, hcurrent, ⟨moreText, htext⟩, ⟨moreLines, hlines⟩, -⟩ := h.emission
  let e := Emission.ofStatements p.symbols source before
  have hwell : e.WellPlaced := Emission.ofStatements_wellPlaced p.symbols source before
  obtain ⟨hplace, -⟩ := Cursor.placed?_inv hplaced
  rw [hbody] at hplace
  obtain ⟨rfl, hsegment⟩ := Cursor.place?_instr hplace
  rw [Cursor.current_eq, hsegment] at hcurrent
  have hcount : s.byteCount = 4 * i.wordCount := by rw [Statement.byteCount, hbody]; rfl
  -- The instructions before the statement fill the segment up to its address.
  have hindex : address + 4 * k = Segment.text.start + 4 * (e.text.size + k) := by
    have haddress := hcurrent.symm.trans hwell.text
    omega
  let instrs := i.emitted (UInt32.ofNat address) s.span p.symbols
  have hlength : instrs.length = i.wordCount := (i.emitted_isExpansion _ _ _).2
  have hinstrs : s.instrs p.symbols address = instrs := by rw [Statement.instrs, hbody]
  have htext' : p.text.toList = e.text.toList ++ instrs ++ moreText := hinstrs ▸ htext.symm
  have hlines' : p.lines.toList = e.lines.toList ++
      List.replicate instrs.length (source.lineOf s.span.start + 1) ++ moreLines :=
    hinstrs ▸ hlines.symm
  have hsize : e.lines.toList.length = e.text.size :=
    Emission.ofStatements_lines_size p.symbols source before
  have hsizes : p.lines.size = p.text.size := Program.ofStatements_lines_size statements source
  rw [hindex, p.instrAt?_index (by omega), Program.lineAt?_index hsizes (by omega)]
  constructor
  · rw [← Array.getElem?_toList, htext', ← Array.length_toList,
      getElem?_between (hlength.symm ▸ hk)]
  · rw [← Array.getElem?_toList, hlines', ← hsize, getElem?_between (by simpa [hlength] using hk),
      List.getElem?_replicate_of_lt (hlength.symm ▸ hk)]

/-- The bytes of the statement stand at its address. -/
theorem Emits.data (h : Emits statements source before s address) {d : Directive}
    (hbody : s.body = some (.directive d)) (hd : d.isData = true) :
    let p := (Program.ofStatements statements source).1
    Segment.data.start ≤ address ∧ address - Segment.data.start + d.byteCount ≤ p.data.size ∧
      Bytes.slice p.data (address - Segment.data.start) d.byteCount = d.image p.symbols := by
  intro p
  obtain ⟨placed, hplaced, hcurrent, -, -, ⟨more, hmore⟩⟩ := h.emission
  have hwell := Emission.ofStatements_wellPlaced p.symbols source before
  obtain ⟨hplace, -⟩ := Cursor.placed?_inv hplaced
  have hle := (Cursor.place?_counters hplace).2
  rw [hbody] at hplace
  obtain ⟨hplaced', hsegment⟩ := Cursor.place?_data hplace hd
  have hisData : s.isData = true := by rw [Statement.isData, hbody]; exact hd
  have hroom : Segment.data.start + (Emission.ofStatements p.symbols source before).data.size ≤
      placed.data := Nat.le_trans hwell.data hle
  have haddress : placed.data = address := by
    rw [← hcurrent, Cursor.current_eq, hplaced', hsegment]
    rfl
  have himage : s.data p.symbols = d.image p.symbols := by rw [Statement.data, hbody]
  rw [hisData, if_pos rfl, haddress] at hmore
  generalize hfront : Bytes.contents (Emission.ofStatements _ source before).data ++ _ = front
    at hmore
  have hlength : front.length = address - Segment.data.start := by
    have hle : (Emission.ofStatements p.symbols source before).data.size ≤
        address - Segment.data.start := by omega
    rw [← hfront, List.length_append, List.length_replicate, Bytes.contents_length]
    exact Nat.add_sub_of_le hle
  have hdata : Bytes.contents p.data = front ++ d.image p.symbols ++ more := by
    rw [← himage]
    exact hmore.symm
  have hsize : p.data.size = front.length + d.byteCount + more.length := by
    rw [← Bytes.contents_length, hdata, List.length_append, List.length_append, d.image_length]
  refine ⟨by omega, by omega, ?_⟩
  rw [← hlength, ← d.image_length p.symbols]
  exact Bytes.slice_of_contents hdata

/-- A program holds what it has to of every statement that is emitted. -/
theorem Emits.places (h : Emits statements source before s address) :
    (Program.ofStatements statements source).1.Places before s address where
  fits := h.fits
  labels l hl hbefore := by
    have hs : s.defines l.name = true := List.any_eq_true.mpr ⟨l, hl, decide_eq_true rfl⟩
    exact h.label hs hbefore
  instr i hbody := ⟨(i.emitted_isExpansion _ _ _).2, fun k hk => h.code hbody hk⟩
  data d hbody hd := by
    obtain ⟨hstart, hend, hslice⟩ := h.data hbody hd
    exact ⟨hstart, hend, d.image_length _, hslice⟩

/-! ## Statements and each other -/

/-- A statement is emitted at one address only, and no other statement is emitted in its place. -/
theorem Emits.unique {before₂ : List Statement} {s₂ : Statement} {address₂ : Nat}
    (h : Emits statements source before s address)
    (h₂ : Emits statements source before₂ s₂ address₂) (hlength : before.length = before₂.length) :
    s = s₂ ∧ address = address₂ := by
  have hlengths : (before ++ [s]).length = (before₂ ++ [s₂]).length := by
    rw [List.length_append, List.length_append, hlength]
    rfl
  have hinitial := List.prefix_of_prefix_length_le h.stands h₂.stands (Nat.le_of_eq hlengths)
  obtain ⟨rfl, hs⟩ := List.append_inj (hinitial.eq_of_length hlengths) hlength
  obtain rfl := List.head_eq_of_cons_eq hs
  exact ⟨rfl, Option.some.inj (h.placed.symm.trans h₂.placed)⟩

theorem Emits.placed_walk (h : Emits statements source before s address) :
    ∃ placed, (before.foldl Cursor.walk .initial).placed? s = some placed ∧
      placed.current = address := by
  obtain ⟨placed, hplaced, hcurrent, -⟩ := h.emission
  rw [Emission.ofStatements_walk] at hplaced
  exact ⟨placed, hplaced, hcurrent⟩

theorem Cursor.start_le_next (statements : List Statement) (segment : Segment) :
    segment.start ≤ (statements.foldl walk initial).next segment := by
  rw [← initial_next]
  exact next_le_foldl_walk initial statements segment

/-- A statement has its room behind all statements before it in the segment, and no room of one
segment reaches into the other. -/
theorem Emits.disjoint_of_lt {before₂ : List Statement} {s₂ : Statement} {address₂ : Nat}
    (h : Emits statements source before s address)
    (h₂ : Emits statements source before₂ s₂ address₂) (hlt : before.length < before₂.length) :
    address + s.byteCount ≤ address₂ ∨ address₂ + s₂.byteCount ≤ address := by
  have hinitial : before ++ [s] <+: before₂ := by
    refine List.prefix_of_prefix_length_le h.stands ?_ (by rw [List.length_append]; exact hlt)
    exact (List.prefix_append before₂ [s₂]).trans h₂.stands
  obtain ⟨between, rfl⟩ := hinitial
  obtain ⟨placed, hplaced, rfl⟩ := h.placed_walk
  obtain ⟨placed₂, hplaced₂, rfl⟩ := h₂.placed_walk
  have hstart := Cursor.start_le_next before placed.segment
  have hstart₂ := Cursor.start_le_next (before ++ [s] ++ between) placed₂.segment
  obtain ⟨hbegin, hend, hlimit⟩ := Cursor.placed?_range hplaced
  obtain ⟨hbegin₂, -, hlimit₂⟩ := Cursor.placed?_range hplaced₂
  by_cases hsegment : placed.segment = placed₂.segment
  · -- The counter of the segment does not go back between the two statements.
    left
    rw [List.foldl_append, List.foldl_append, List.foldl_cons, List.foldl_nil, ← hsegment]
      at hbegin₂
    have hle := Cursor.next_le_foldl_walk ((before.foldl Cursor.walk .initial).walk s) between
      placed.segment
    omega
  · -- Each segment ends, however full it is, before the other one starts or behind it.
    have hapart : Segment.text.start + segmentLimit ≤ Segment.data.start := by decide
    cases hs : placed.segment with
    | text =>
      cases hs₂ : placed₂.segment with
      | text => exact absurd (hs.trans hs₂.symm) hsegment
      | data =>
        rw [hs] at hlimit
        rw [hs₂] at hstart₂ hbegin₂
        left
        omega
    | data =>
      cases hs₂ : placed₂.segment with
      | text =>
        rw [hs₂] at hlimit₂
        rw [hs] at hstart hbegin
        right
        omega
      | data => exact absurd (hs.trans hs₂.symm) hsegment

/-! ## Bytes of no statement -/

/-- A byte of the data segment, by its offset, is in the room of no emitted statement. -/
def Unowned (statements : List Statement) (source : Source) (k : Nat) : Prop :=
  ∀ before s address, Emits statements source before s address →
    ¬(address ≤ Segment.data.start + k ∧ Segment.data.start + k < address + s.byteCount)

/-- Only data directives put bytes into the data segment. They do so at the data counter, and fill
their room. -/
theorem Emission.data_room {c placed : Cursor} (symbols : SymbolTable)
    (hplaced : c.placed? s = some placed) (hsome : s.data symbols ≠ []) :
    s.isData = true ∧ placed.current = placed.data ∧ s.byteCount = (s.data symbols).length := by
  rcases Cursor.placed?_cases hplaced with ⟨i, hbody, -⟩ | ⟨d, hbody, hd, hsegment, hplaced'⟩ |
    ⟨-, -, hnone, -⟩
  · rw [Statement.data, hbody] at hsome
    exact absurd rfl hsome
  · rw [Statement.isData, Statement.byteCount, Statement.data, hbody]
    refine ⟨hd, ?_, (d.image_length symbols).symm⟩
    rw [Cursor.current_eq, hplaced', hsegment]
    rfl
  · exact absurd (hnone symbols) hsome

/-- A byte that is there after a statement was there before, or is padding, or is in the room of the
statement. -/
theorem Emission.add_getElem? {e : Emission} {symbols : SymbolTable} {k : Nat} {b : UInt8}
    (h : e.WellPlaced)
    (hget : (Bytes.contents (e.add symbols source s).data)[k]? = some b) :
    (Bytes.contents e.data)[k]? = some b ∨ b = 0 ∨
      ∃ placed, e.cursor.placed? s = some placed ∧ placed.current ≤ Segment.data.start + k ∧
        Segment.data.start + k < placed.current + s.byteCount := by
  cases hplaced : e.cursor.placed? s with
  | none =>
    rw [(add_of_not_placed symbols source hplaced).2.2] at hget
    exact .inl hget
  | some placed =>
    obtain ⟨hplace, -⟩ := Cursor.placed?_inv hplaced
    have hroom := Nat.le_trans h.data (Cursor.place?_counters hplace).2
    rw [add_data hplaced hroom, List.append_assoc, List.getElem?_append] at hget
    generalize hpadding : (if s.isData then _ else 0) = padding at hget
    split at hget
    · exact .inl hget
    · next hbehind =>
      rw [List.getElem?_append, List.length_replicate] at hget
      split at hget
      · exact .inr (.inl (List.eq_of_mem_replicate (List.mem_of_getElem? hget)))
      · next hroom =>
        -- The byte is one that the statement says, so it has the offset of the statement or more.
        obtain ⟨hlt, -⟩ := List.getElem?_eq_some_iff.mp hget
        rw [Bytes.contents_length] at hbehind hroom hlt
        have hsome : s.data symbols ≠ [] := List.ne_nil_of_length_pos (by omega)
        obtain ⟨hisData, hcurrent, hcount⟩ := data_room symbols hplaced hsome
        rw [hisData, if_pos rfl] at hpadding
        exact .inr (.inr ⟨placed, rfl, by omega, by omega⟩)

/-- The bytes that have been put down by some of the statements are zero where they belong to none
of all statements. -/
theorem unowned_zero (hinitial : before <+: statements) {k : Nat} {b : UInt8}
    (hunowned : Unowned statements source k)
    (hget : (Bytes.contents (Emission.ofStatements (Definitions.ofStatements statements).table
      source before).data)[k]? = some b) : b = 0 := by
  induction before using List.reverseRecOn with
  | nil => exact nomatch hget
  | append_singleton before s ih =>
    have hwell := Emission.ofStatements_wellPlaced (Definitions.ofStatements statements).table
      source before
    rw [Emission.ofStatements, List.foldl_append, List.foldl_cons, List.foldl_nil] at hget
    rcases Emission.add_getElem? hwell hget with hget | rfl | ⟨placed, hplaced, hbegin, hend⟩
    · exact ih ((List.prefix_append before [s]).trans hinitial) hget
    · rfl
    · refine absurd ⟨hbegin, hend⟩ (hunowned before s placed.current ⟨hinitial, ?_⟩)
      rw [hplaced, Option.map_some]

end Emits

/-- The passes of the assembler agree. Labels have the addresses where the second pass puts their
statements. Every statement that is emitted is put where its labels are, and there the program holds
what the statement says; no two statements share a byte; and bytes of data that belong to no
statement are zero. -/
theorem passes_agree (source : Source) :
    let statements := (parse source.chars).1
    let p := (assemble source).program
    (∀ before s placed, before ++ [s] <+: statements →
      (Emission.ofStatements p.symbols source before).cursor.place? s.body = some placed →
      ∀ l ∈ s.labels, (∀ t ∈ before, t.defines l.name = false) →
        p.symbols.address? l.name = some (UInt32.ofNat placed.current)) ∧
    (∀ before s address, Emits statements source before s address →
      p.Places before s address) ∧
    (∀ before₁ s₁ address₁ before₂ s₂ address₂, Emits statements source before₁ s₁ address₁ →
      Emits statements source before₂ s₂ address₂ → before₁.length ≠ before₂.length →
      address₁ + s₁.byteCount ≤ address₂ ∨ address₂ + s₂.byteCount ≤ address₁) ∧
    ∀ k, Unowned statements source k → Bytes.get p.data k = 0 := by
  intro statements p
  refine ⟨?_, fun before s address h => h.places, ?_, fun k hunowned => ?_⟩
  · intro before s placed hstands hplace l hl hbefore
    have hs : s.defines l.name = true := List.any_eq_true.mpr ⟨l, hl, decide_eq_true rfl⟩
    exact address?_of_place? hstands hplace hs hbefore
  · intro before₁ s₁ address₁ before₂ s₂ address₂ h₁ h₂ hne
    rcases Nat.lt_or_gt_of_ne hne with hlt | hlt
    · exact h₁.disjoint_of_lt h₂ hlt
    · exact (h₂.disjoint_of_lt h₁ hlt).symm
  · rw [Bytes.get_eq]
    cases hget : (Bytes.contents p.data)[k]? with
    | none => rfl
    | some b => exact unowned_zero List.prefix_rfl hunowned hget

/-- A word behind a byte, which names a label behind it. -/
theorem passes_agree_forward :
    let source : Source := .ofString ".data\n.byte 7\n.word y\ny:"
    let p := (assemble source).program
    (p.symbols.address? "y").map UInt32.toNat = some 0x10010008 ∧
      Bytes.slice p.data 4 4 = [0x10, 0x01, 0x00, 0x08] ∧ Bytes.get p.data 2 = 0 := by
  intro source p
  let start : Statement := ⟨[], some (.directive .data), ⟨0, 5⟩⟩
  let byte : Statement := ⟨[], some (.directive (.byte [7])), ⟨6, 13⟩⟩
  let values : Directive := .word [.label ⟨"y", 20⟩ 0]
  let word : Statement := ⟨[], some (.directive values), ⟨14, 21⟩⟩
  let trailing : Statement := ⟨[⟨"y", 22⟩], none, ⟨22, 23⟩⟩
  have hstatements : (parse source.chars).1 = [start, byte, word, trailing] := by decide +kernel
  have hstart : Emits (parse source.chars).1 source [] start 0x10010000 :=
    ⟨by decide +kernel, by decide +kernel⟩
  have hbyte : Emits (parse source.chars).1 source [start] byte 0x10010000 :=
    ⟨by decide +kernel, by decide +kernel⟩
  have hword : Emits (parse source.chars).1 source [start, byte] word 0x10010004 :=
    ⟨by decide +kernel, by decide +kernel⟩
  have htrailing : Emits (parse source.chars).1 source [start, byte, word] trailing 0x10010008 :=
    ⟨by decide +kernel, by decide +kernel⟩
  obtain ⟨-, hplaces, -, hzero⟩ := passes_agree source
  refine ⟨?_, ?_, ?_⟩
  · exact (hplaces _ _ _ htrailing).labels ⟨"y", 22⟩ (by decide) (by decide)
  · obtain ⟨-, -, -, himage⟩ := (hplaces _ _ _ hword).data values rfl rfl
    exact himage.trans (by decide +kernel)
  · -- The offset lies between the room of the byte and the room of the word.
    refine hzero 2 fun before s address h hin => ?_
    have hlength := h.stands.length_le
    rw [List.length_append, hstatements] at hlength
    obtain h0 | h1 | h2 | h3 :
        before.length = 0 ∨ before.length = 1 ∨ before.length = 2 ∨ before.length = 3 := by
      change before.length + 1 ≤ 4 at hlength
      omega
    · obtain ⟨rfl, rfl⟩ := h.unique hstart h0
      exact absurd hin (by decide)
    · obtain ⟨rfl, rfl⟩ := h.unique hbyte h1
      exact absurd hin (by decide)
    · obtain ⟨rfl, rfl⟩ := h.unique hword h2
      exact absurd hin (by decide)
    · obtain ⟨rfl, rfl⟩ := h.unique htrailing h3
      exact absurd hin (by decide)

end MipsLab
