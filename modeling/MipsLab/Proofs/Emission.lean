import MipsLab.Program.Emission
import MipsLab.Proofs.Bytes
import MipsLab.Proofs.Expansion

/-!
# What the second pass puts down

Each statement adds instructions behind the others, or bytes behind the others, or nothing. Both are
given here as lists that depend on the statement, its place and the labels alone.

1. `Cursor.walk`, `Emission.add_cursor`: how a statement moves the location counters.
2. `Emission.add_code`: the instructions that a statement adds.
3. `Emission.add_data`: the bytes that a statement adds, as long as the data counter is not behind
   the data.
4. `Program.ofStatements_normal`: every instruction of a program can be encoded without loss.
-/

namespace MipsLab

/-! ## Places -/

/-- How many bytes a statement takes. -/
def Statement.byteCount (s : Statement) : Nat := (s.body.map Body.byteCount).getD 0

namespace Cursor

/-- Where a statement is put, if it belongs into the current segment and there is room for it. -/
def placed? (c : Cursor) (s : Statement) : Option Cursor :=
  (c.place? s.body).bind fun placed => (placed.advance? s.byteCount).map fun _ => placed

/-- The location counters behind a statement. One that has no room still switches segments and
aligns the counter. -/
def walk (c : Cursor) (s : Statement) : Cursor :=
  match c.place? s.body with
  | none => c
  | some placed => (placed.advance? s.byteCount).getD placed

theorem place?_instr {c placed : Cursor} {i : SourceInstr}
    (h : c.place? (some (.instr i)) = some placed) : placed = c ∧ c.segment = .text := by
  unfold place? at h
  simp only at h
  split at h
  · next hsegment => exact ⟨(Option.some.inj h).symm, hsegment⟩
  · exact nomatch h

theorem place?_data {c placed : Cursor} {d : Directive}
    (h : c.place? (some (.directive d)) = some placed) (hd : d.isData = true) :
    placed = { c with data := roundUp c.data d.alignment } ∧ c.segment = .data := by
  unfold place? at h
  split at h
  · next heq =>
    obtain rfl := Body.directive.inj (Option.some.inj heq)
    exact nomatch hd
  · next heq =>
    obtain rfl := Body.directive.inj (Option.some.inj heq)
    exact nomatch hd
  · next heq =>
    obtain rfl := Body.directive.inj (Option.some.inj heq)
    rw [if_pos hd] at h
    split at h
    · exact nomatch h
    · next hsegment => exact ⟨(Option.some.inj h).symm, hsegment⟩
  · next heq => exact nomatch Option.some.inj heq
  · next heq => exact nomatch heq

theorem moveTo_current (c : Cursor) : c.moveTo c.current = c := by
  rcases c with ⟨segment, text, data⟩
  cases segment <;> rfl

theorem advance?_inv {c next : Cursor} {size : Nat} (h : c.advance? size = some next) :
    next = c.moveTo (c.current + size) ∧ c.current + size ≤ c.segment.start + segmentLimit := by
  unfold advance? at h
  split at h
  · exact ⟨(Option.some.inj h).symm, by omega⟩
  · exact nomatch h

theorem advance?_zero (c : Cursor) : (c.advance? 0).getD c = c := by
  unfold advance?
  split
  · exact moveTo_current c
  · rfl

theorem placed?_inv {c placed : Cursor} {s : Statement} (h : c.placed? s = some placed) :
    c.place? s.body = some placed ∧ placed.advance? s.byteCount = some (c.walk s) := by
  obtain ⟨placed, hplace, h⟩ := Option.bind_eq_some_iff.mp h
  obtain ⟨next, hadvance, rfl⟩ := Option.map_eq_some_iff.mp h
  refine ⟨hplace, hadvance.trans ?_⟩
  simp only [walk, hplace, hadvance, Option.getD_some]

end Cursor

/-! ## Contents -/

/-- The instructions that are put at `pc` for an instruction: those that it stands for, or as many
that do nothing. -/
def SourceInstr.emitted (i : SourceInstr) (pc : Address) (span : Span) (symbols : SymbolTable) :
    List Instr :=
  match i.expand pc span symbols with
  | .ok instrs => instrs
  | .error _ => List.replicate i.wordCount Instr.nop

/-- The instructions that a statement puts at an address. -/
def Statement.instrs (s : Statement) (symbols : SymbolTable) (address : Nat) : List Instr :=
  match s.body with
  | some (.instr i) => i.emitted (UInt32.ofNat address) s.span symbols
  | _ => []

/-- The line of a statement, for every instruction that it puts at an address. -/
def Statement.lines (s : Statement) (symbols : SymbolTable) (source : Source) (address : Nat) :
    List Nat :=
  List.replicate (s.instrs symbols address).length (source.lineOf s.span.start + 1)

/-- The bytes that a directive puts into the data segment. The most significant byte of a number is
the first one. The words of a directive that names unknown labels are all zero. -/
def Directive.image (d : Directive) (symbols : SymbolTable) : List UInt8 :=
  match d with
  | word values =>
    match values.mapM symbols.resolveExpr with
    | .ok words => words.flatMap Word.bytes
    | .error _ => List.replicate (4 * values.length) 0
  | half values => values.flatMap fun v => [UInt8.ofNat (v.toNat / 0x100), UInt8.ofNat v.toNat]
  | byte values => values
  | ascii value => Bytes.utf8 value
  | asciiz value => Bytes.utf8 value ++ [0]
  | space size => List.replicate size.toNat 0
  | text | data | globl _ | align _ => []

/-- The bytes that a statement puts into the data segment. -/
def Statement.data (s : Statement) (symbols : SymbolTable) : List UInt8 :=
  match s.body with
  | some (.directive d) => d.image symbols
  | _ => []

/-! ## The room that contents take -/

theorem SourceInstr.emitted_isExpansion (i : SourceInstr) (pc : Address) (span : Span)
    (symbols : SymbolTable) : i.IsExpansion (i.emitted pc span symbols) := by
  unfold emitted
  split
  · next h => exact expand_isExpansion h
  · refine ⟨fun instr h => ?_, List.length_replicate⟩
    obtain rfl := List.eq_of_mem_replicate h
    trivial

theorem Bytes.utf8_length (s : String) : (Bytes.utf8 s).length = Text.byteLength s.toList := by
  unfold Bytes.utf8
  induction s.toList with
  | nil => rfl
  | cons c cs ih =>
    rw [List.flatMap_cons, List.length_append, ih, String.length_utf8EncodeChar, Text.byteLength]

theorem Directive.image_length (d : Directive) (symbols : SymbolTable) :
    (d.image symbols).length = d.byteCount := by
  cases d with
  | word values =>
    unfold image byteCount
    simp only
    split
    · next words h => rw [Word.flatMap_bytes_length, mapM_ok_length h]
    · exact List.length_replicate
  | half values =>
    have hpair (v : UInt16) :
        [UInt8.ofNat (v.toNat / 0x100), UInt8.ofNat v.toNat].length = 2 := rfl
    exact Bytes.flatMap_length hpair values
  | byte values => rfl
  | ascii value => exact Bytes.utf8_length value
  | asciiz value => rw [image, List.length_append, Bytes.utf8_length]; rfl
  | space size => exact List.length_replicate
  | text | data | globl | align => rfl

/-- The bytes of a directive that can be resolved, with zeros behind them as far as there is
room. -/
theorem Directive.image_of_ok {d : Directive} {symbols : SymbolTable} {bytes : List UInt8}
    (h : d.bytes symbols = .ok bytes) :
    d.image symbols = bytes ++ List.replicate (d.byteCount - bytes.length) 0 := by
  have hfull : d.image symbols = bytes → d.image symbols =
      bytes ++ List.replicate (d.byteCount - bytes.length) 0 := by
    intro heq
    rw [← image_length d symbols, heq, Nat.sub_self, List.replicate_zero, List.append_nil]
  cases d with
  | word values =>
    obtain ⟨words, hwords, h⟩ := bind_ok_inv h
    obtain rfl := Except.ok.inj h
    exact hfull (by rw [image, hwords])
  | space size =>
    obtain rfl := Except.ok.inj h
    rfl
  | half | byte | ascii | asciiz | text | data | globl | align =>
    obtain rfl := Except.ok.inj h
    exact hfull rfl

/-- A directive that cannot be resolved puts zeros there. -/
theorem Directive.image_of_error {d : Directive} {symbols : SymbolTable} {e : AssemblyError}
    (h : d.bytes symbols = .error e) : d.image symbols = List.replicate d.byteCount 0 := by
  cases d with
  | word values =>
    cases hwords : values.mapM symbols.resolveExpr with
    | error e => rw [image, hwords]; rfl
    | ok words => simp [bytes, hwords, bind, Except.bind, pure, Except.pure] at h
  | _ => exact nomatch h

/-! ## Adding statements -/

/-- Whether a statement belongs into the data segment. -/
def Statement.isData (s : Statement) : Bool :=
  match s.body with
  | some (.directive d) => d.isData
  | _ => false

namespace Emission

variable {symbols : SymbolTable} {source : Source} {e : Emission} {s : Statement}

theorem appendText_text (e : Emission) (line : Nat) (instrs : List Instr) :
    (e.appendText line instrs).text.toList = e.text.toList ++ instrs :=
  Array.toList_appendList

theorem appendText_lines (e : Emission) (line : Nat) (instrs : List Instr) :
    (e.appendText line instrs).lines.toList =
      e.lines.toList ++ List.replicate instrs.length line := by
  show (e.lines ++ Array.replicate instrs.length line).toList = _
  rw [Array.toList_append, Array.toList_replicate]

/-- An instruction with room is put behind the others. Whether it can be resolved only shows in the
errors. -/
theorem addInstr_of_some {line : Nat} {span : Span} {i : SourceInstr} {next : Cursor}
    (h : e.cursor.advance? (4 * i.wordCount) = some next) :
    let instrs := i.emitted (UInt32.ofNat e.cursor.current) span symbols
    (e.addInstr symbols line span i).cursor = next ∧
      (e.addInstr symbols line span i).data = e.data ∧
      (e.addInstr symbols line span i).text.toList = e.text.toList ++ instrs ∧
      (e.addInstr symbols line span i).lines.toList =
        e.lines.toList ++ List.replicate instrs.length line := by
  unfold addInstr SourceInstr.emitted
  cases i.expand (UInt32.ofNat e.cursor.current) span symbols with
  | ok instrs =>
    simp only [h]
    exact ⟨rfl, rfl, appendText_text _ _ _, appendText_lines _ _ _⟩
  | error error =>
    simp only [report, h]
    exact ⟨rfl, rfl, appendText_text _ _ _, appendText_lines _ _ _⟩

theorem addInstr_of_none (symbols : SymbolTable) (line : Nat) (span : Span) {i : SourceInstr}
    (h : e.cursor.advance? (4 * i.wordCount) = none) :
    (e.addInstr symbols line span i).cursor = e.cursor ∧
      (e.addInstr symbols line span i).data = e.data ∧
      (e.addInstr symbols line span i).text = e.text ∧
      (e.addInstr symbols line span i).lines = e.lines := by
  unfold addInstr
  cases i.expand (UInt32.ofNat e.cursor.current) span symbols with
  | ok instrs => simp only [h, and_self]
  | error error =>
    simp only [report, h, and_self]

theorem addData_of_some (symbols : SymbolTable) {d : Directive} {next : Cursor}
    (h : e.cursor.advance? d.byteCount = some next) :
    (e.addData symbols d).cursor = next ∧ (e.addData symbols d).text = e.text ∧
      (e.addData symbols d).lines = e.lines := by
  unfold addData
  simp only [h, and_self]

theorem addData_of_none {d : Directive} (h : e.cursor.advance? d.byteCount = none) :
    e.addData symbols d = e := by
  unfold addData
  simp only [h]

/-- A directive with room is put behind the data, after as many zeros as lead up to the cursor. -/
theorem addData_data {d : Directive} {next : Cursor} (hsegment : e.cursor.segment = .data)
    (h : e.cursor.advance? d.byteCount = some next)
    (hdata : Segment.data.start + e.data.size ≤ e.cursor.data) :
    Bytes.contents (e.addData symbols d).data = Bytes.contents e.data ++
      List.replicate (e.cursor.data - Segment.data.start - e.data.size) 0 ++ d.image symbols := by
  have hnext : next.data = e.cursor.data + d.byteCount := by
    rw [(Cursor.advance?_inv h).1]
    simp only [Cursor.moveTo, Cursor.current, hsegment]
  unfold addData
  simp only [h]
  generalize Segment.data.start = origin at hdata ⊢
  cases hbytes : d.bytes symbols with
  | ok bytes =>
    have hroom : next.data - origin - (max e.data.size (e.cursor.data - origin) + bytes.length) =
        d.byteCount - bytes.length := by omega
    simp only [Bytes.contents_padTo, Bytes.contents_appendList, Bytes.size_appendList,
      Bytes.size_padTo, hroom]
    rw [Directive.image_of_ok hbytes, List.append_assoc]
  | error error =>
    have hroom : next.data - origin - (max e.data.size (e.cursor.data - origin) + 0) =
        d.byteCount := by omega
    simp only [Bytes.contents_padTo, Bytes.contents_appendList, Bytes.size_appendList,
      Bytes.size_padTo, List.append_nil, List.length_nil, hroom]
    rw [Directive.image_of_error hbytes]

/-- Both kinds of room are asked for in the same way, so the counters do not depend on what a
statement puts down. -/
theorem add_cursor (e : Emission) (s : Statement) :
    (e.add symbols source s).cursor = e.cursor.walk s := by
  unfold add Cursor.walk Statement.byteCount
  cases e.cursor.place? s.body with
  | none => rfl
  | some placed =>
    cases s.body with
    | none => exact (Cursor.advance?_zero placed).symm
    | some body =>
      cases body with
      | instr i =>
        simp only [Option.map_some, Option.getD_some, Body.byteCount]
        cases h : placed.advance? (4 * i.wordCount) with
        | none => exact (addInstr_of_none _ _ _ h).1
        | some next => exact (addInstr_of_some h).1
      | directive d =>
        simp only [Option.map_some, Option.getD_some, Body.byteCount]
        by_cases hd : d.isData
        · rw [if_pos hd]
          cases h : placed.advance? d.byteCount with
          | none => rw [addData_of_none h]; rfl
          | some next => exact (addData_of_some _ h).1
        · -- The second pass does not ask for room here, and the first one asks for none.
          have hzero : d.byteCount = 0 := by
            cases d with
            | text | data | globl => rfl
            | _ => exact absurd rfl hd
          rw [if_neg hd, hzero, Cursor.advance?_zero]

/-- A statement that does not belong where it stands, or has no room, adds nothing. -/
theorem add_of_not_placed (symbols : SymbolTable) (source : Source)
    (h : e.cursor.placed? s = none) :
    (e.add symbols source s).text = e.text ∧ (e.add symbols source s).lines = e.lines ∧
      (e.add symbols source s).data = e.data := by
  unfold Cursor.placed? Statement.byteCount at h
  unfold add
  cases hplace : e.cursor.place? s.body with
  | none => exact ⟨rfl, rfl, rfl⟩
  | some placed =>
    rw [hplace, Option.bind_some, Option.map_eq_none_iff] at h
    cases hbody : s.body with
    | none => exact ⟨rfl, rfl, rfl⟩
    | some body =>
      rw [hbody, Option.map_some, Option.getD_some] at h
      cases body with
      | instr i =>
        obtain ⟨-, hdata, htext, hlines⟩ := addInstr_of_none (e := { e with cursor := placed })
          symbols (source.lineOf s.span.start + 1) s.span h
        exact ⟨htext, hlines, hdata⟩
      | directive d =>
        simp only
        split
        · rw [addData_of_none h]
          exact ⟨rfl, rfl, rfl⟩
        · exact ⟨rfl, rfl, rfl⟩

/-- The instructions that a statement adds, and their lines. -/
theorem add_code (symbols : SymbolTable) (source : Source) {placed : Cursor}
    (h : e.cursor.placed? s = some placed) :
    (e.add symbols source s).text.toList =
        e.text.toList ++ s.instrs symbols placed.current ∧
      (e.add symbols source s).lines.toList =
        e.lines.toList ++ s.lines symbols source placed.current := by
  obtain ⟨hplace, hadvance⟩ := Cursor.placed?_inv h
  unfold add Statement.lines Statement.instrs
  rw [hplace]
  cases hbody : s.body with
  | none => exact ⟨(List.append_nil _).symm, (List.append_nil _).symm⟩
  | some body =>
    cases body with
    | instr i =>
      rw [Statement.byteCount, hbody] at hadvance
      exact (addInstr_of_some hadvance).2.2
    | directive d =>
      -- Directives leave the instructions as they are.
      simp only [List.length_nil, List.replicate_zero, List.append_nil]
      split
      · rw [Statement.byteCount, hbody] at hadvance
        obtain ⟨-, htext, hlines⟩ :=
          addData_of_some (e := { e with cursor := placed }) symbols hadvance
        exact ⟨congrArg Array.toList htext, congrArg Array.toList hlines⟩
      · exact ⟨rfl, rfl⟩

/-- The list of instructions and the one of lines stay equally long, though they are extended
separately. -/
theorem add_lines_size (e : Emission) (s : Statement) (h : e.lines.size = e.text.size) :
    (e.add symbols source s).lines.size = (e.add symbols source s).text.size := by
  cases hplaced : e.cursor.placed? s with
  | none =>
    obtain ⟨htext, hlines, -⟩ := add_of_not_placed symbols source hplaced
    rwa [htext, hlines]
  | some placed =>
    obtain ⟨htext, hlines⟩ := add_code symbols source hplaced
    show (e.add symbols source s).lines.toList.length = (e.add symbols source s).text.toList.length
    rw [htext, hlines, List.length_append, List.length_append, Statement.lines,
      List.length_replicate]
    exact congrArg (· + _) h

/-- The bytes that a statement adds. -/
theorem add_data {placed : Cursor} (h : e.cursor.placed? s = some placed)
    (hdata : Segment.data.start + e.data.size ≤ placed.data) :
    Bytes.contents (e.add symbols source s).data = Bytes.contents e.data ++
      List.replicate (if s.isData then placed.data - Segment.data.start - e.data.size else 0) 0 ++
      s.data symbols := by
  obtain ⟨hplace, hadvance⟩ := Cursor.placed?_inv h
  unfold add Statement.data Statement.isData
  rw [hplace]
  cases hbody : s.body with
  | none => simp
  | some body =>
    rw [Statement.byteCount, hbody, Option.map_some, Option.getD_some] at hadvance
    cases body with
    | instr i =>
      rw [(addInstr_of_some hadvance).2.1]
      simp
    | directive d =>
      simp only
      by_cases hd : d.isData
      · rw [if_pos hd, if_pos hd]
        rw [hbody] at hplace
        obtain ⟨rfl, hsegment⟩ := Cursor.place?_data hplace hd
        exact addData_data hsegment hadvance hdata
      · have himage : d.image symbols = [] := by
          cases d with
          | text | data | globl => rfl
          | _ => exact absurd rfl hd
        rw [if_neg hd, if_neg hd, himage]
        simp

/-- What holds at first and is kept by every statement holds after all of them. -/
theorem foldl_add_induction {P : Emission → Prop} (hadd : ∀ e s, P e → P (e.add symbols source s))
    (he : P e) (statements : List Statement) : P (statements.foldl (add symbols source) e) := by
  induction statements generalizing e with
  | nil => exact he
  | cons s statements ih => exact ih (hadd e s he)

/-! ## Normal instructions -/

theorem add_normal (e : Emission) (s : Statement) (h : ∀ i ∈ e.text.toList, i.Normal) :
    ∀ i ∈ (e.add symbols source s).text.toList, i.Normal := by
  cases hplaced : e.cursor.placed? s with
  | none => rwa [(add_of_not_placed symbols source hplaced).1]
  | some placed =>
    rw [(add_code symbols source hplaced).1]
    intro instr hinstr
    rcases List.mem_append.mp hinstr with hinstr | hinstr
    · exact h instr hinstr
    · unfold Statement.instrs at hinstr
      split at hinstr
      · next i _ => exact (i.emitted_isExpansion _ _ _).1 instr hinstr
      · exact nomatch hinstr

theorem ofStatements_lines_size (symbols : SymbolTable) (source : Source)
    (statements : List Statement) :
    (ofStatements symbols source statements).lines.size =
      (ofStatements symbols source statements).text.size :=
  foldl_add_induction (P := fun e => e.lines.size = e.text.size) add_lines_size rfl statements

end Emission

/-- Every instruction of a program can be encoded without loss. -/
theorem Program.ofStatements_normal (statements : List Statement) (source : Source) :
    ∀ i ∈ (Program.ofStatements statements source).1.text.toList, i.Normal :=
  Emission.foldl_add_induction Emission.add_normal (fun _ hi => absurd hi List.not_mem_nil)
    statements

/-- Every instruction of a program has its line. -/
theorem Program.ofStatements_lines_size (statements : List Statement) (source : Source) :
    (Program.ofStatements statements source).1.lines.size =
      (Program.ofStatements statements source).1.text.size :=
  Emission.ofStatements_lines_size _ source statements

end MipsLab
