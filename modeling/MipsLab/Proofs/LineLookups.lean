import Mathlib.Data.List.Nodup
import MipsLab.Proofs.Layout
import MipsLab.Proofs.Tiling

/-!
# Looking up addresses, lines and names

The instructions of a program are found by their addresses, by the lines that they are written on,
and by the labels that have their addresses. These tell the same of every program, also of one that
has statements which do not belong where they stand, which there is no room for, or which cannot be
resolved.

1. `Cursor.placedInstrs`, `Emission.foldl_add_code`: the instructions and the lines of a program,
   statement by statement.
2. `parse_bodies_ordered`: no two statements of a text are written on one line, nor out of order.
3. `Program.mem_listing_iff_found`, `Program.addressOfLine?_eq_some_iff`: looking up an address or a
   line.
4. `SymbolTable.nameAt?_eq_some_iff`: looking up a name.
5. `program_lookups_coherent`: all of it, for every source text.
-/

namespace MipsLab

/-! ## Instructions and their lines -/

/-- An instruction of a source text that is put at an address. -/
structure PlacedInstr where
  address : Nat
  instr : SourceInstr
  span : Span

namespace PlacedInstr

/-- The machine instructions that stand for it. -/
def instrs (x : PlacedInstr) (symbols : SymbolTable) : List Instr :=
  x.instr.emitted (UInt32.ofNat x.address) x.span symbols

/-- A line for each of these. -/
def lines (x : PlacedInstr) (source : Source) : List Nat :=
  List.replicate x.instr.wordCount (source.lineOf x.span.start + 1)

theorem replicate_instrs_length (x : PlacedInstr) (symbols : SymbolTable) (source : Source) :
    List.replicate (x.instrs symbols).length (source.lineOf x.span.start + 1) = x.lines source := by
  have hlength : (x.instrs symbols).length = x.instr.wordCount :=
    (x.instr.emitted_isExpansion _ _ _).2
  rw [hlength, lines]

end PlacedInstr

/-- The instructions among some statements that belong where they stand and have room. -/
def Cursor.placedInstrs (c : Cursor) : List Statement → List PlacedInstr
  | [] => []
  | s :: rest =>
    match c.placed? s, s.body with
    | some placed, some (.instr i) => ⟨placed.current, i, s.span⟩ :: (c.walk s).placedInstrs rest
    | _, _ => (c.walk s).placedInstrs rest

namespace Emission

variable {symbols : SymbolTable} {source : Source} {e : Emission}

/-- What the second pass puts into the text segment, and the lines of it. -/
theorem foldl_add_code (e : Emission) (statements : List Statement) :
    (statements.foldl (add symbols source) e).text.toList =
        e.text.toList ++ (e.cursor.placedInstrs statements).flatMap (·.instrs symbols) ∧
      (statements.foldl (add symbols source) e).lines.toList =
        e.lines.toList ++ (e.cursor.placedInstrs statements).flatMap (·.lines source) := by
  induction statements generalizing e with
  | nil => exact ⟨(List.append_nil _).symm, (List.append_nil _).symm⟩
  | cons s statements ih =>
    obtain ⟨htext, hlines⟩ := ih (e.add symbols source s)
    rw [List.foldl_cons, htext, hlines, add_cursor, Cursor.placedInstrs]
    cases hplaced : e.cursor.placed? s with
    | none =>
      obtain ⟨hsame, hsame', -⟩ := add_of_not_placed symbols source hplaced
      rw [hsame, hsame']
      exact ⟨rfl, rfl⟩
    | some placed =>
      obtain ⟨hadded, hadded'⟩ := add_code symbols source hplaced
      rw [hadded, hadded', Statement.lines, Statement.instrs]
      cases hbody : s.body with
      | none => exact ⟨congrArg (· ++ _) (List.append_nil _), congrArg (· ++ _) (List.append_nil _)⟩
      | some body =>
        cases body with
        | instr i =>
          let x : PlacedInstr := ⟨placed.current, i, s.span⟩
          have hx := x.replicate_instrs_length symbols source
          simp only [List.flatMap_cons]
          exact ⟨List.append_assoc .., by rw [← hx]; exact List.append_assoc ..⟩
        | directive d =>
          exact ⟨congrArg (· ++ _) (List.append_nil _), congrArg (· ++ _) (List.append_nil _)⟩

/-- The instruction with an index belongs to a statement that has been put there. The induction is
on the statements from the last one on, as each puts its instructions behind those before it. -/
theorem exists_placed (symbols : SymbolTable) (source : Source) (statements : List Statement)
    {i : Nat} (h : i < (ofStatements symbols source statements).text.size) :
    ∃ before s placed, before ++ [s] <+: statements ∧
      (ofStatements symbols source before).cursor.placed? s = some placed ∧
      (ofStatements symbols source before).text.size ≤ i ∧
      i < (ofStatements symbols source before).text.size +
        (s.instrs symbols placed.current).length := by
  induction statements using List.reverseRecOn with
  | nil => exact absurd h (Nat.not_lt_zero i)
  | append_singleton statements s ih =>
    rw [ofStatements_append] at h
    by_cases hfront : i < (ofStatements symbols source statements).text.size
    · obtain ⟨before, t, placed, hstands, hrest⟩ := ih hfront
      exact ⟨before, t, placed, hstands.trans (List.prefix_append _ _), hrest⟩
    · cases hplaced : (ofStatements symbols source statements).cursor.placed? s with
      | none =>
        rw [(add_of_not_placed symbols source hplaced).1] at h
        exact absurd h hfront
      | some placed =>
        rw [add_text_size hplaced] at h
        exact ⟨statements, s, placed, List.prefix_rfl, hplaced, Nat.not_lt.mp hfront, h⟩

end Emission

namespace Program

/-- The instructions of a program, and the lines that they come from. -/
theorem ofStatements_code (statements : List Statement) (source : Source) :
    let p := (ofStatements statements source).1
    p.text.toList = (Cursor.initial.placedInstrs statements).flatMap (·.instrs p.symbols) ∧
      p.lines.toList = (Cursor.initial.placedInstrs statements).flatMap (·.lines source) :=
  Emission.foldl_add_code {} statements

end Program

/-! ## Lines of statements -/

/-- An instruction or directive starts with one of the lexemes of its line. -/
theorem ParsedLine.ofLexemes_body_start {line : List Lexeme} {body : Body} {span : Span}
    (h : (ofLexemes line).body = some (body, span)) : ∃ l ∈ line, span.start = l.span.start := by
  have hsuffix := (takeLabels_suffix (tokensOfLine line)).subset
  unfold ofLexemes at h
  dsimp only at h
  generalize takeLabels (tokensOfLine line) = found at hsuffix h
  obtain ⟨labels, rest⟩ := found
  cases hlex : firstLexError? line with
  | some error => rw [hlex] at h; exact nomatch h
  | none =>
    rw [hlex] at h
    cases rest with
    | nil => exact nomatch h
    | cons first rest =>
      cases hlast : (tokensOfLine line).getLast? with
      | none => rw [hlast] at h; exact nomatch h
      | some last =>
        rw [hlast] at h
        simp only [List.head?_cons] at h
        split at h
        · obtain ⟨-, rfl⟩ := Prod.mk.inj (Option.some.inj h)
          have hmem := (tokensOfLine_sublist line).subset
            (List.mem_map_of_mem (hsuffix List.mem_cons_self))
          exact ⟨_, hmem, rfl⟩
        · exact nomatch h

/-- The instructions and directives of a text are on lines of their own, from top to bottom. -/
theorem parse_bodies_ordered (text : String) :
    let source := Source.ofString text
    ((parse source.chars).1.filterMap Statement.bodyAt?).Pairwise fun b b' =>
      source.lineOf b.2.start < source.lineOf b'.2.start := by
  intro source
  have hlines : parseLines source.chars =
      (List.range source.lineCount).map fun line => .ofLexemes (source.lexemesOn line) := by
    unfold parseLines
    rw [Source.splitLines_lex text, List.map_map]
    rfl
  have hline : ∀ line body span,
      (ParsedLine.ofLexemes (source.lexemesOn line)).body = some (body, span) →
        source.lineOf span.start = line := by
    intro line body span h
    obtain ⟨l, hl, hstart⟩ := ParsedLine.ofLexemes_body_start h
    rw [hstart]
    exact (of_decide_eq_true (List.mem_filter.mp hl).2).2
  show ((Statement.gather [] (parseLines source.chars)).filterMap _).Pairwise _
  rw [Statement.bodies_gather, hlines, List.filterMap_map, List.pairwise_filterMap]
  refine List.pairwise_lt_range.imp ?_
  rintro line line' hlt ⟨body, span⟩ hbody ⟨body', span'⟩ hbody'
  rwa [hline line body span hbody, hline line' body' span' hbody']

theorem Cursor.placedInstrs_sublist (c : Cursor) (statements : List Statement) :
    ((c.placedInstrs statements).map fun x => (Body.instr x.instr, x.span)).Sublist
      (statements.filterMap Statement.bodyAt?) := by
  induction statements generalizing c with
  | nil => exact List.nil_sublist _
  | cons s statements ih =>
    rw [placedInstrs]
    split
    · next i _ hbody =>
      rw [List.filterMap_cons_some (show s.bodyAt? = some (.instr i, s.span) by
        unfold Statement.bodyAt?
        rw [hbody]
        rfl)]
      exact (ih _).cons_cons _
    · rw [List.filterMap_cons]
      split
      · exact ih _
      · exact (ih _).cons _

/-- The lines of a program never decrease. -/
theorem assemble_lines_sorted (text : String) :
    (assemble (.ofString text)).program.lines.toList.Pairwise (· ≤ ·) := by
  let source := Source.ofString text
  have hordered := (parse_bodies_ordered text).sublist
    (Cursor.initial.placedInstrs_sublist (parse source.chars).1)
  rw [List.pairwise_map] at hordered
  have hlines : (assemble source).program.lines.toList = _ :=
    (Program.ofStatements_code (parse source.chars).1 source).2
  rw [hlines, List.pairwise_flatMap]
  refine ⟨fun x _ => List.pairwise_replicate.mpr (.inr (Nat.le_refl _)), hordered.imp ?_⟩
  intro x y hlt line hline line' hline'
  rw [List.eq_of_mem_replicate hline, List.eq_of_mem_replicate hline']
  exact Nat.succ_le_succ (Nat.le_of_lt hlt)

/-- Between two of the same in an ordered array there is nothing else. -/
theorem between_of_sorted {lines : Array Nat} (h : lines.toList.Pairwise (· ≤ ·))
    {i j k line : Nat} (hij : i ≤ j) (hjk : j ≤ k) (hi : lines[i]? = some line)
    (hk : lines[k]? = some line) : lines[j]? = some line := by
  obtain ⟨hlt, rfl⟩ := Array.getElem?_eq_some_iff.mp hk
  obtain ⟨hlti, hline⟩ := Array.getElem?_eq_some_iff.mp hi
  have hltj : j < lines.size := Nat.lt_of_le_of_lt hjk hlt
  refine Array.getElem?_eq_some_iff.mpr ⟨hltj, Nat.le_antisymm ?_ ?_⟩
  · exact h.rel_get_of_le (a := ⟨j, hltj⟩) (b := ⟨k, hlt⟩) hjk
  · rw [← hline]
    exact h.rel_get_of_le (a := ⟨i, hlti⟩) (b := ⟨j, hltj⟩) hij

-- The second `li` takes two instructions.
example :
    (assemble (.ofString "main:\n  li $t0, 1\n\n  li $t0, 0x10000\n  syscall")).program.lines =
      #[2, 4, 4, 5] := by decide +kernel

/-- A span covers some characters of a text on one line, which has a number counted from one. -/
def Span.WrittenOn (s : Span) (chars : List Char) (line : Nat) : Prop :=
  ∃ before inside behind, chars = before ++ inside ++ behind ∧ '\n' ∉ inside ∧
    s = ⟨Text.byteLength before, Text.byteLength (before ++ inside)⟩ ∧
    line = before.count '\n' + 1

theorem Span.OnLine.writtenOn {text : String} {s : Span} (h : s.OnLine text.toList) :
    s.WrittenOn text.toList ((Source.ofString text).lineOf s.start + 1) := by
  obtain ⟨front, line, rest, inside, hchars, -, hline, hcovers⟩ := h
  have hinside := hcovers.notMem hline
  obtain ⟨before, behind, rfl, rfl⟩ := hcovers
  have hsplit : text.toList = front ++ before ++ (inside ++ (behind ++ rest)) := by
    rw [hchars]
    simp only [List.append_assoc]
  refine ⟨front ++ before, inside, behind ++ rest, ?_, hinside, ?_, ?_⟩
  · rw [hsplit, List.append_assoc (front ++ before)]
  · rw [List.append_assoc, Text.byteLength_append front, Text.byteLength_append front]
  · rw [← Text.byteLength_append, Source.lineOf_byteLength hsplit]

/-! ## Looking up addresses -/

namespace Program

variable {p : Program} {a : Address} {i : Nat}

theorem index?_eq_some_iff :
    p.index? a = some i ↔ i < p.text.size ∧ a.toNat = Segment.text.start + 4 * i := by
  have hstart : Segment.text.start = 0x00400000 := rfl
  unfold index?
  rw [Option.ite_none_right_eq_some, Option.some.injEq, Address.isAligned_iff]
  constructor
  · rintro ⟨⟨hle, haligned, hlt⟩, rfl⟩
    refine ⟨hlt, ?_⟩
    omega
  · rintro ⟨hlt, ha⟩
    omega

theorem toNat_addressOf (hfits : 4 * p.text.size ≤ segmentLimit) (hi : i < p.text.size) :
    (addressOf i).toNat = Segment.text.start + 4 * i := by
  have hstart : Segment.text.start = 0x00400000 := rfl
  have hlimit : segmentLimit = 0x1000000 := rfl
  refine UInt32.toNat_ofNat_of_lt' ?_
  show _ < 0x100000000
  omega

/-- What is found at an address is the instruction that has it, and its line. -/
theorem found_iff {instr : Instr} {line : Nat} :
    p.instrAt? a = some instr ∧ p.lineAt? a = some line ↔
      ∃ i, p.text[i]? = some instr ∧ p.lines[i]? = some line ∧
        a.toNat = Segment.text.start + 4 * i := by
  unfold instrAt? lineAt?
  constructor
  · rintro ⟨hinstr, hline⟩
    obtain ⟨i, hi, hinstr⟩ := Option.bind_eq_some_iff.mp hinstr
    rw [hi] at hline
    exact ⟨i, hinstr, hline, (index?_eq_some_iff.mp hi).2⟩
  · rintro ⟨i, hinstr, hline, ha⟩
    obtain ⟨hlt, -⟩ := Array.getElem?_eq_some_iff.mp hinstr
    rw [index?_eq_some_iff.mpr ⟨hlt, ha⟩]
    exact ⟨hinstr, hline⟩

theorem listing_length (hsize : p.lines.size = p.text.size) :
    p.listing.length = p.text.size := by
  rw [listing, List.length_map, List.length_zipIdx, List.length_zip, Array.length_toList,
    Array.length_toList, hsize, Nat.min_self]

theorem listing_getElem? {instr : Instr} {line : Nat} (hinstr : p.text[i]? = some instr)
    (hline : p.lines[i]? = some line) : p.listing[i]? = some (addressOf i, instr, line) := by
  have hzip : (p.text.toList.zip p.lines.toList)[i]? = some (instr, line) :=
    List.getElem?_zip_eq_some.mpr
      ⟨Array.getElem?_toList.trans hinstr, Array.getElem?_toList.trans hline⟩
  rw [listing, List.getElem?_map, List.getElem?_zipIdx, hzip, Nat.zero_add]
  rfl

theorem mem_listing_iff {instr : Instr} {line : Nat} :
    (a, instr, line) ∈ p.listing ↔
      ∃ i, p.text[i]? = some instr ∧ p.lines[i]? = some line ∧ a = addressOf i := by
  constructor
  · intro hlisted
    obtain ⟨⟨⟨instr', line'⟩, i⟩, hmem, heq⟩ := List.mem_map.mp hlisted
    obtain ⟨rfl, hcode⟩ := Prod.mk.inj heq
    obtain ⟨rfl, rfl⟩ := Prod.mk.inj hcode
    rw [List.mem_zipIdx_iff_getElem?, List.getElem?_zip_eq_some, Array.getElem?_toList,
      Array.getElem?_toList] at hmem
    exact ⟨i, hmem.1, hmem.2, rfl⟩
  · rintro ⟨i, hinstr, hline, rfl⟩
    exact List.mem_of_getElem? (listing_getElem? hinstr hline)

/-- The instructions that are listed are those that are found at their addresses. -/
theorem mem_listing_iff_found (hfits : 4 * p.text.size ≤ segmentLimit) {instr : Instr}
    {line : Nat} :
    (a, instr, line) ∈ p.listing ↔ p.instrAt? a = some instr ∧ p.lineAt? a = some line := by
  rw [found_iff, mem_listing_iff]
  refine exists_congr fun i => and_congr_right fun hinstr => and_congr_right fun _ => ?_
  obtain ⟨hlt, -⟩ := Array.getElem?_eq_some_iff.mp hinstr
  rw [← toNat_addressOf hfits hlt, UInt32.toNat_inj]

theorem not_found (hout : ∀ i < p.text.size, a.toNat ≠ Segment.text.start + 4 * i) :
    p.instrAt? a = none ∧ p.lineAt? a = none := by
  have hnone : p.index? a = none := by
    refine Option.eq_none_iff_forall_ne_some.mpr fun i hi => ?_
    obtain ⟨hlt, ha⟩ := index?_eq_some_iff.mp hi
    exact hout i hlt ha
  unfold instrAt? lineAt?
  rw [hnone]
  exact ⟨rfl, rfl⟩

/-- The address of a line is that of the first instruction on it. -/
theorem addressOfLine?_eq_some_iff {line : Nat} :
    p.addressOfLine? line = some a ↔
      ∃ i, p.lines[i]? = some line ∧ a = addressOf i ∧ ∀ j < i, p.lines[j]? ≠ some line := by
  unfold addressOfLine?
  simp only [Option.map_eq_some_iff, Array.findIdx?_eq_some_iff_getElem, decide_eq_true_eq]
  constructor
  · rintro ⟨i, ⟨hi, rfl, hfirst⟩, rfl⟩
    refine ⟨i, Array.getElem?_eq_getElem hi, rfl, fun j hj hsome => ?_⟩
    rw [Array.getElem?_eq_getElem (Nat.lt_trans hj hi)] at hsome
    exact hfirst j hj (Option.some.inj hsome)
  · rintro ⟨i, hsome, rfl, hfirst⟩
    obtain ⟨hi, rfl⟩ := Array.getElem?_eq_some_iff.mp hsome
    refine ⟨i, ⟨hi, rfl, fun j hj hother => hfirst j hj ?_⟩, rfl⟩
    rw [Array.getElem?_eq_getElem (Nat.lt_trans hj hi), hother]

theorem addressOfLine?_eq_none_iff {line : Nat} :
    p.addressOfLine? line = none ↔ line ∉ p.lines := by
  unfold addressOfLine?
  rw [Option.map_eq_none_iff, Array.findIdx?_eq_none_iff]
  simp only [decide_eq_false_iff_not]
  exact ⟨fun h hmem => h line hmem rfl, fun h x hmem heq => h (heq ▸ hmem)⟩

end Program

/-! ## Looking up names -/

namespace SymbolTable

variable {t : SymbolTable} {a : Address} {name : String}

theorem mem_sorted_iff {symbol : Symbol} : symbol ∈ t.sorted ↔ symbol ∈ t.symbols := by
  unfold sorted
  rw [(List.mergeSort_perm _ _).mem_iff, Array.mem_toList_iff]

theorem sorted_pairwise (t : SymbolTable) :
    t.sorted.Pairwise fun s s' => s.label.name ≤ s'.label.name := by
  have hsorted : t.sorted.Pairwise fun s s' => decide (s.label.name ≤ s'.label.name) = true := by
    unfold sorted
    refine List.pairwise_mergeSort (fun s s' s'' h h' => ?_) (fun s s' => ?_) _
    · exact decide_eq_true (String.le_trans (of_decide_eq_true h) (of_decide_eq_true h'))
    · simpa using String.le_total s.label.name s'.label.name
  exact hsorted.imp of_decide_eq_true

/-- If every name is there once, the address of a name is that of any symbol with it. -/
theorem address?_eq_some_iff (hnames : (t.symbols.toList.map (·.label.name)).Nodup) :
    t.address? name = some a ↔ ∃ s ∈ t.symbols, s.label.name = name ∧ s.address = a := by
  unfold address? find?
  rw [Option.map_eq_some_iff]
  constructor
  · rintro ⟨s, hs, rfl⟩
    exact ⟨s, Array.mem_of_find?_eq_some hs, by simpa using Array.find?_some hs, rfl⟩
  · rintro ⟨s, hs, rfl, rfl⟩
    have hinj := List.inj_on_of_nodup_map hnames
    cases hfind : t.symbols.find? (·.label.name = s.label.name) with
    | none => exact absurd (Array.find?_eq_none.mp hfind s hs) (by simp)
    | some s' =>
      have hname : s'.label.name = s.label.name := by simpa using Array.find?_some hfind
      have hmem := Array.mem_toList_iff.mpr (Array.mem_of_find?_eq_some hfind)
      exact ⟨s', rfl, congrArg _ (hinj hmem (Array.mem_toList_iff.mpr hs) hname)⟩

/-- The name of an address is the least of the names that have it. -/
theorem nameAt?_eq_some_iff (hnames : (t.symbols.toList.map (·.label.name)).Nodup) :
    t.nameAt? a = some name ↔
      t.address? name = some a ∧ ∀ other, t.address? other = some a → name ≤ other := by
  have hsome (s : Symbol) (hs : s ∈ t.sorted) (ha : s.address = a) :
      t.address? s.label.name = some a :=
    (address?_eq_some_iff hnames).mpr ⟨s, mem_sorted_iff.mp hs, rfl, ha⟩
  have hleast (s : Symbol) (hfind : t.sorted.find? (·.address = a) = some s) (other : String)
      (hother : t.address? other = some a) : s.label.name ≤ other := by
    obtain ⟨s', hs', rfl, ha'⟩ := (address?_eq_some_iff hnames).mp hother
    obtain ⟨-, before, behind, hsplit, hbefore⟩ := List.find?_eq_some_iff_append.mp hfind
    have hmem : s' ∈ before ++ s :: behind := hsplit ▸ mem_sorted_iff.mpr hs'
    have hsorted := t.sorted_pairwise
    rw [hsplit] at hsorted
    rcases List.mem_append.mp hmem with hmem | hmem
    · exact absurd ha' (by simpa using hbefore s' hmem)
    · rcases List.mem_cons.mp hmem with rfl | hmem
      · exact String.le_refl _
      · exact (List.pairwise_cons.mp (List.pairwise_append.mp hsorted).2.1).1 s' hmem
  unfold nameAt?
  rw [Option.map_eq_some_iff]
  constructor
  · rintro ⟨s, hfind, rfl⟩
    have ha : s.address = a := by simpa using List.find?_some hfind
    exact ⟨hsome s (List.mem_of_find?_eq_some hfind) ha, hleast s hfind⟩
  · rintro ⟨haddress, hbest⟩
    obtain ⟨s', hs', rfl, ha'⟩ := (address?_eq_some_iff hnames).mp haddress
    cases hfind : t.sorted.find? (·.address = a) with
    | none =>
      have hother := List.find?_eq_none.mp hfind s' (mem_sorted_iff.mpr hs')
      exact absurd ha' (by simpa using hother)
    | some s =>
      have ha : s.address = a := by simpa using List.find?_some hfind
      refine ⟨s, rfl, String.le_antisymm (hleast s hfind _ haddress) ?_⟩
      exact hbest _ (hsome s (List.mem_of_find?_eq_some hfind) ha)

theorem nameAt?_eq_none_iff (hnames : (t.symbols.toList.map (·.label.name)).Nodup) :
    t.nameAt? a = none ↔ ∀ name, t.address? name ≠ some a := by
  unfold nameAt?
  rw [Option.map_eq_none_iff, List.find?_eq_none]
  constructor
  · intro h name haddress
    obtain ⟨s, hs, rfl, ha⟩ := (address?_eq_some_iff hnames).mp haddress
    exact h s (mem_sorted_iff.mpr hs) (decide_eq_true ha)
  · intro h s hs ha
    exact h s.label.name ((address?_eq_some_iff hnames).mpr
      ⟨s, mem_sorted_iff.mp hs, rfl, of_decide_eq_true ha⟩)

end SymbolTable

/-! ## Programs of source texts -/

/-- An instruction of a program belongs to a statement of the text, whose room it is in and on whose
line it is written. -/
theorem exists_statement_of_line {text : String} {i line : Nat} :
    let source := Source.ofString text
    (assemble source).program.lines[i]? = some line →
      ∃ before s address, Emits (parse source.chars).1 source before s address ∧
        (∃ instr, s.body = some (.instr instr)) ∧ address ≤ Segment.text.start + 4 * i ∧
        Segment.text.start + 4 * i < address + s.byteCount ∧
        s.span.WrittenOn source.chars line := by
  intro source hline
  let statements := (parse source.chars).1
  let p := (Program.ofStatements statements source).1
  have hsize : p.lines.size = p.text.size := Program.ofStatements_lines_size statements source
  have hi : i < p.text.size := hsize ▸ (Array.getElem?_eq_some_iff.mp hline).1
  obtain ⟨before, s, placed, hstands, hplaced, hle, hlt⟩ :=
    Emission.exists_placed p.symbols source statements hi
  have hemits : Emits statements source before s placed.current :=
    ⟨hstands, congrArg (Option.map Cursor.current) hplaced⟩
  have hwell := Emission.ofStatements_wellPlaced p.symbols source before
  -- What puts no instructions has no index.
  rcases Cursor.placed?_cases hplaced with ⟨instr, hbody, hsegment, hsame⟩ | ⟨d, hbody, -⟩ |
    ⟨-, -, -, hnone, -⟩
  · have hcount : s.byteCount = 4 * instr.wordCount := by rw [Statement.byteCount, hbody]; rfl
    have hlength : (s.instrs p.symbols placed.current).length = instr.wordCount := by
      rw [Statement.instrs, hbody]
      exact (instr.emitted_isExpansion _ _ _).2
    have haddress : placed.current = Segment.text.start +
        4 * (Emission.ofStatements p.symbols source before).text.size := by
      rw [hsame, Cursor.current_eq, hsegment]
      exact hwell.text
    generalize hbefore : (Emission.ofStatements p.symbols source before).text.size = size at *
    have hfits := hemits.fits
    have hindex : placed.current + 4 * (i - size) = Segment.text.start + 4 * i := by omega
    have hfound : p.lineAt? (UInt32.ofNat (placed.current + 4 * (i - size))) =
        some (source.lineOf s.span.start + 1) := (hemits.code hbody (by omega)).2
    rw [hindex, Program.lineAt?_index hsize (by omega)] at hfound
    obtain rfl := Option.some.inj (hfound.symm.trans hline)
    refine ⟨before, s, placed.current, hemits, ⟨instr, hbody⟩, by omega, by omega, ?_⟩
    have hmem : s ∈ statements :=
      hstands.subset (List.mem_append_right _ (List.mem_singleton_self s))
    exact (statements_onLine source.chars s hmem).span.writtenOn
  · rw [Statement.instrs, hbody] at hlt
    exact absurd hlt (Nat.not_lt.mpr hle)
  · rw [hnone] at hlt
    exact absurd hlt (Nat.not_lt.mpr hle)

/-- What is looked up in the program of a source text by address, by line and by name. -/
structure Program.Lookups (p : Program) (source : Source) : Prop where
  /-- The instructions are those of the statements that are put anywhere, one behind the other. -/
  text : p.text.toList =
    (Cursor.initial.placedInstrs (parse source.chars).1).flatMap (·.instrs p.symbols)
  /-- The lines come from the same statements, and there are as many of them. -/
  lines : p.lines.toList =
    (Cursor.initial.placedInstrs (parse source.chars).1).flatMap (·.lines source)
  size : p.text.size = p.lines.size
  /-- All instructions are listed, each with its line, from the start of the segment on. -/
  listing : p.listing.length = p.text.size ∧ ∀ i instr line, p.text[i]? = some instr →
    p.lines[i]? = some line → p.listing[i]? = some (addressOf i, instr, line)
  address : ∀ i < p.text.size, (addressOf i).toNat = Segment.text.start + 4 * i
  /-- What is listed at an address is what is found there. -/
  found : ∀ a instr line, (a, instr, line) ∈ p.listing ↔
    p.instrAt? a = some instr ∧ p.lineAt? a = some line
  /-- Nothing is found at any other address. -/
  absent : ∀ a, (∀ i < p.text.size, a.toNat ≠ Segment.text.start + 4 * i) →
    p.instrAt? a = none ∧ p.lineAt? a = none
  /-- The line of an instruction is the one that its statement is written on. -/
  written : ∀ i line, p.lines[i]? = some line →
    ∃ before s address, Emits (parse source.chars).1 source before s address ∧
      (∃ instr, s.body = some (.instr instr)) ∧ address ≤ Segment.text.start + 4 * i ∧
      Segment.text.start + 4 * i < address + s.byteCount ∧ s.span.WrittenOn source.chars line
  sorted : p.lines.toList.Pairwise (· ≤ ·)
  /-- The instructions of a line have none of another line between them. -/
  contiguous : ∀ i j k line : Nat, i ≤ j → j ≤ k → p.lines[i]? = some line →
    p.lines[k]? = some line → p.lines[j]? = some line
  /-- The address of a line is that of the first instruction on it. -/
  lineAddress : ∀ line a, p.addressOfLine? line = some a ↔
    ∃ i, p.lines[i]? = some line ∧ a = addressOf i ∧ ∀ j < i, p.lines[j]? ≠ some line
  noLine : ∀ line, p.addressOfLine? line = none ↔ line ∉ p.lines
  /-- The name of an address is the least of the labels that have it. -/
  name : ∀ (a : Address) (name : String), p.symbols.nameAt? a = some name ↔
    p.symbols.address? name = some a ∧
      ∀ other, p.symbols.address? other = some a → name ≤ other
  noName : ∀ a, p.symbols.nameAt? a = none ↔ ∀ name, p.symbols.address? name ≠ some a

/-- Looking up addresses, lines and names tells the same of every source text, whatever is wrong
with it. -/
theorem program_lookups_coherent (text : String) :
    let source := Source.ofString text
    (assemble source).program.Lookups source := by
  intro source
  let p := (assemble source).program
  have hfits : 4 * p.text.size ≤ segmentLimit :=
    (Program.ofStatements_fits (parse source.chars).1 source).1
  have hnames := (Definitions.records_ofStatements (parse source.chars).1).nodup
  have hsize : p.lines.size = p.text.size := Program.ofStatements_lines_size _ source
  obtain ⟨htext, hlines⟩ := Program.ofStatements_code (parse source.chars).1 source
  exact
    { text := htext
      lines := hlines
      size := hsize.symm
      listing := ⟨Program.listing_length hsize, fun i instr line => Program.listing_getElem?⟩
      address := fun i => Program.toNat_addressOf hfits
      found := fun a instr line => Program.mem_listing_iff_found hfits
      absent := fun a => Program.not_found
      written := fun i line => exists_statement_of_line
      sorted := assemble_lines_sorted text
      contiguous := fun i j k line => between_of_sorted (assemble_lines_sorted text)
      lineAddress := fun line a => Program.addressOfLine?_eq_some_iff
      noLine := fun line => Program.addressOfLine?_eq_none_iff
      name := fun a name => SymbolTable.nameAt?_eq_some_iff hnames
      noName := fun a => SymbolTable.nameAt?_eq_none_iff hnames }

end MipsLab
