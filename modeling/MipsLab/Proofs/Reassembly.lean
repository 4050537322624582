import Mathlib.Algebra.Group.Nat.Defs
import Mathlib.Data.List.Forall2
import MipsLab.Proofs.Acceptance
import MipsLab.Proofs.Disassembly

/-!
# Disassembly reassembles

The texts of machine instructions, one on each line, make a source text that has no problems, and
its program consists of these instructions.

1. `Instr.results_sourceText`: how the whole text is lexed.
2. `splitLines_results`, `ParsedLine.ofLexemes_tokens`: every line is parsed to its instruction.
3. `Definitions.foldl_add_written`, `Emission.foldl_add_written`: both passes take the statements in
   without an error.
4. `Instr.reassembles`: all of it together.
-/

namespace MipsLab

open Token (results)

/-! ## Lines -/

/-- Machine instructions as a source text. -/
def Instr.sourceText (instrs : List Instr) : String := "\n".intercalate (instrs.map Instr.text)

/-- Every line is read as the tokens of its instruction. The induction is on the lines. -/
theorem Instr.results_sourceText (instrs : List Instr) :
    results (sourceText instrs).toList =
      ([Token.newline].intercalate (instrs.map Instr.tokens)).map .ok := by
  unfold sourceText
  induction instrs with
  | nil => exact Token.results_nil
  | cons i instrs ih =>
    cases instrs with
    | nil =>
      rw [List.map_singleton, List.map_singleton, String.intercalate_singleton,
        List.intercalate_singleton]
      exact i.lexesTo_text.lastLine
    | cons next instrs =>
      rw [List.map_cons, List.map_cons] at ih ⊢
      rw [List.map_cons, List.map_cons, String.intercalate_cons_cons, List.intercalate_cons_cons,
        String.toList_append, String.toList_append, List.append_assoc, List.append_assoc,
        List.map_append, List.map_append, ← ih]
      exact i.lexesTo_text.line _

/-! ## Splitting -/

/-- What does not end a line goes into it. -/
theorem splitLines_cons {lexeme : Lexeme} {rest line : List Lexeme} {lines : List (List Lexeme)}
    (h : lexeme.result ≠ .ok .newline) (hrest : splitLines rest = line :: lines) :
    splitLines (lexeme :: rest) = (lexeme :: line) :: lines := by
  rw [splitLines, hrest]
  split
  · next hnewline => exact absurd hnewline h
  · next hnil _ => exact nomatch hnil
  · next hcons _ =>
    obtain ⟨rfl, rfl⟩ := List.cons.inj hcons
    rfl

theorem splitLines_newline {lexeme : Lexeme} (h : lexeme.result = .ok .newline)
    (rest : List Lexeme) : splitLines (lexeme :: rest) = [] :: splitLines rest := by
  rw [splitLines, h]

theorem splitLines_append {first rest line : List Lexeme} {lines : List (List Lexeme)}
    (h : ∀ lexeme ∈ first, lexeme.result ≠ .ok .newline)
    (hrest : splitLines rest = line :: lines) :
    splitLines (first ++ rest) = (first ++ line) :: lines := by
  induction first with
  | nil => exact hrest
  | cons lexeme first ih =>
    have hthen := ih fun l hl => h l (List.mem_cons_of_mem lexeme hl)
    exact splitLines_cons (h lexeme List.mem_cons_self) hthen

/-- A line that is read as some tokens. -/
def ReadAs (tokens : List Token) (line : List Lexeme) : Prop :=
  line.map Lexeme.result = tokens.map .ok

theorem ReadAs.no_newline {tokens : List Token} {line : List Lexeme} (h : ReadAs tokens line)
    (htokens : ∀ token ∈ tokens, token.isInner = true) :
    ∀ lexeme ∈ line, lexeme.result ≠ .ok .newline := by
  intro lexeme hmem hnewline
  have hresult : lexeme.result ∈ tokens.map .ok := by
    rw [← h]
    exact List.mem_map_of_mem hmem
  obtain ⟨token, htoken, hok⟩ := List.mem_map.mp hresult
  obtain rfl : token = .newline := Except.ok.inj (hok.trans hnewline)
  exact nomatch htokens _ htoken

/-- Lexemes that are read as lines with newlines between them are split into these lines. The
induction is on the lines behind the first one. -/
theorem splitLines_results {first : List Token} {others : List (List Token)}
    (hinner : ∀ tokens ∈ first :: others, ∀ token ∈ tokens, token.isInner = true)
    {lexemes : List Lexeme}
    (h : ReadAs ([Token.newline].intercalate (first :: others)) lexemes) :
    List.Forall₂ ReadAs (first :: others) (splitLines lexemes) := by
  induction others generalizing first lexemes with
  | nil =>
    rw [List.intercalate_singleton] at h
    have hall := h.no_newline (hinner first List.mem_cons_self)
    have hsplit := splitLines_append hall (rfl : splitLines [] = [[]])
    rw [List.append_nil] at hsplit
    rw [hsplit]
    exact .cons h .nil
  | cons second others ih =>
    rw [List.intercalate_cons_cons, ReadAs, List.map_append, List.map_append] at h
    obtain ⟨opening, rest, rfl, hopening, hrest⟩ := List.map_eq_append_iff.mp h
    obtain ⟨line, ending, rfl, hline, hending⟩ := List.map_eq_append_iff.mp hopening
    obtain ⟨newline, rfl, hnewline⟩ := List.map_eq_singleton_iff.mp hending
    have hall := ReadAs.no_newline hline (hinner first List.mem_cons_self)
    have hothers := ih (fun tokens ht => hinner tokens (List.mem_cons_of_mem first ht)) hrest
    have hsplit := splitLines_append hall (splitLines_newline hnewline rest)
    rw [List.append_nil] at hsplit
    rw [List.append_assoc, List.singleton_append, hsplit]
    exact .cons hline hothers

/-! ## Parsing -/

theorem takeLabels_no_colon {line : List Located}
    (h : ∀ located ∈ line, located.token ≠ .colon) : takeLabels line = ([], line) := by
  unfold takeLabels
  split
  · next rest =>
    exact absurd rfl (h _ (List.mem_cons_of_mem _ List.mem_cons_self))
  · rfl

/-- A line without errors and comments is taken as it is. -/
theorem ReadAs.tokensOfLine {tokens : List Token} {line : List Lexeme} (h : ReadAs tokens line)
    (htokens : ∀ token ∈ tokens, token.isInner = true) :
    firstLexError? line = none ∧ (tokensOfLine line).map Located.token = tokens := by
  induction line generalizing tokens with
  | nil =>
    obtain rfl := List.map_eq_nil_iff.mp h.symm
    exact ⟨rfl, rfl⟩
  | cons lexeme line ih =>
    obtain ⟨token, others, rfl, hresult, hline⟩ := List.map_eq_cons_iff.mp h.symm
    rcases lexeme with ⟨result, span⟩
    obtain rfl : .ok token = result := hresult
    rw [List.forall_mem_cons] at htokens
    obtain ⟨hnone, hothers⟩ := ih hline.symm htokens.2
    refine ⟨hnone, ?_⟩
    cases token with
    | comment => exact nomatch htokens.1
    | _ => exact congrArg (List.cons _) hothers

/-- A line that is the text of an instruction. -/
theorem ParsedLine.ofLexemes_tokens {i : Instr} (h : i.Normal) {line : List Lexeme}
    (hline : ReadAs i.tokens line) :
    ∃ span, ofLexemes line = { labels := [], body := some (.instr i.source, span) } := by
  obtain ⟨hnone, htokens⟩ := hline.tokensOfLine i.isInner_tokens
  have hcolon : ∀ located ∈ tokensOfLine line, located.token ≠ .colon := by
    intro located hmem hcolon
    have htoken : located.token ∈ i.tokens := by
      rw [← htokens]
      exact List.mem_map_of_mem hmem
    rw [hcolon] at htoken
    exact nomatch i.isInner_tokens _ htoken
  have hlabels := takeLabels_no_colon hcolon
  obtain ⟨first, hfirst⟩ : ∃ first, (tokensOfLine line).head? = some first := by
    obtain ⟨first, rest, hcons, -⟩ := List.map_eq_cons_iff.mp htokens
    exact ⟨first, by rw [hcons, List.head?_cons]⟩
  obtain ⟨last, hlast⟩ : ∃ last, (tokensOfLine line).getLast? = some last := by
    cases hlast : (tokensOfLine line).getLast? with
    | none =>
      rw [List.getLast?_eq_none_iff.mp hlast] at hfirst
      exact nomatch hfirst
    | some last => exact ⟨last, rfl⟩
  refine ⟨⟨first.span.start, last.span.stop⟩, ?_⟩
  unfold ofLexemes
  simp only [hlabels, hnone, hfirst, hlast, Instr.body_run h htokens]

/-- A statement that the text of an instruction is. -/
structure Statement.Written (s : Statement) (i : Instr) : Prop where
  labels : s.labels = []
  body : s.body = some (.instr i.source)

/-- Lines that are the texts of instructions make their statements, and no error. -/
theorem gather_written {instrs : List Instr} (hnormal : ∀ i ∈ instrs, i.Normal)
    {lines : List (List Lexeme)} (h : List.Forall₂ ReadAs (instrs.map Instr.tokens) lines) :
    List.Forall₂ Statement.Written (Statement.gather [] (lines.map ParsedLine.ofLexemes)) instrs ∧
      (lines.map ParsedLine.ofLexemes).filterMap ParsedLine.error = [] := by
  induction instrs generalizing lines with
  | nil =>
    cases h
    exact ⟨.nil, rfl⟩
  | cons i instrs ih =>
    rw [List.forall_mem_cons] at hnormal
    rw [List.map_cons] at h
    obtain ⟨line, others, hline, hothers, rfl⟩ := List.forall₂_cons_left_iff.mp h
    obtain ⟨span, hparsed⟩ := ParsedLine.ofLexemes_tokens hnormal.1 hline
    obtain ⟨hstatements, herrors⟩ := ih hnormal.2 hothers
    rw [List.map_cons, hparsed]
    refine ⟨?_, herrors⟩
    rw [Statement.gather]
    exact .cons ⟨rfl, rfl⟩ hstatements

/-- The text of instructions is parsed to one statement for each. -/
theorem Instr.parse_sourceText {instrs : List Instr} (hne : instrs ≠ [])
    (hnormal : ∀ i ∈ instrs, i.Normal) :
    List.Forall₂ Statement.Written (parse (sourceText instrs).toList).1 instrs ∧
      (parse (sourceText instrs).toList).2 = [] := by
  obtain ⟨first, others, rfl⟩ := List.exists_cons_of_ne_nil hne
  have hinner : ∀ tokens ∈ (first :: others).map Instr.tokens,
      ∀ token ∈ tokens, token.isInner = true := by
    intro tokens hmem
    obtain ⟨i, -, rfl⟩ := List.mem_map.mp hmem
    exact i.isInner_tokens
  have hread : ReadAs _ (Token.lex (sourceText (first :: others)).toList) :=
    results_sourceText (first :: others)
  exact gather_written hnormal (splitLines_results hinner hread)

/-! ## Places -/

namespace Cursor

/-- Behind a number of instructions and no data. -/
def behindCode (count : Nat) : Cursor :=
  { segment := .text, text := Segment.text.start + 4 * count, data := Segment.data.start }

theorem advance?_behindCode {count : Nat} (h : count < 2 ^ 22) :
    (behindCode count).advance? 4 = some (behindCode (count + 1)) := by
  have hroom : Segment.text.start + 4 * count + 4 - Segment.text.start ≤ segmentLimit := by
    unfold segmentLimit
    omega
  exact if_pos hroom

/-- All the code lies in the lowest region, and so does what stands behind it. -/
theorem region_behindCode {count : Nat} (h : count < 2 ^ 22) :
    Address.region (UInt32.ofNat (behindCode count).current + 4) = 0 := by
  have hcurrent : (behindCode count).current = 0x400000 + 4 * count := rfl
  have hnat : (UInt32.ofNat (0x400000 + 4 * count)).toNat = 0x400000 + 4 * count :=
    UInt32.toNat_ofNat_of_lt' (show _ < 0x100000000 by omega)
  have hfour : (4 : Address).toNat = 4 := rfl
  unfold Address.region
  rw [hcurrent, UInt32.toNat_add, hnat, hfour]
  omega

end Cursor

/-! ## The first pass -/

namespace Definitions

theorem add_written {s : Statement} {i : Instr} (hs : s.Written i) {c next : Cursor}
    (hsegment : c.segment = .text) (hnext : c.advance? 4 = some next) :
    add { cursor := c } s = { cursor := next } := by
  obtain ⟨labels, body, span⟩ := s
  obtain rfl : labels = [] := hs.labels
  obtain rfl : body = some (.instr i.source) := hs.body
  have hplace : c.place? (some (.instr i.source)) = some c := by
    simp only [Cursor.place?, hsegment]
  have hcount : ((some (Body.instr i.source)).map Body.byteCount).getD 0 = 4 := by
    show 4 * i.source.wordCount = 4
    rw [i.source_wordCount]
  unfold add
  simp only [hplace, List.foldl_nil, declareGlobal, advance, hcount, hnext]

theorem foldl_add_written {statements : List Statement} {instrs : List Instr}
    (h : List.Forall₂ Statement.Written statements instrs) {count : Nat}
    (hsize : count + instrs.length ≤ 2 ^ 22) :
    statements.foldl add { cursor := .behindCode count } =
      { cursor := .behindCode (count + instrs.length) } := by
  induction h generalizing count with
  | nil => rfl
  | @cons s i statements instrs hs _ ih =>
    rw [List.length_cons] at hsize ⊢
    rw [List.foldl_cons, add_written hs rfl (Cursor.advance?_behindCode (by omega)), ih (by omega),
      Nat.add_assoc, Nat.add_comm 1]

end Definitions

/-! ## The second pass -/

namespace Emission

variable {symbols : SymbolTable} {source : Source} {e : Emission}

theorem add_written {count : Nat} {s : Statement} {i : Instr} (hs : s.Written i)
    (hnormal : i.Normal) (h : count < 2 ^ 22) (hcursor : e.cursor = .behindCode count) :
    e.add symbols source s =
      { e with
        cursor := .behindCode (count + 1)
        text := e.text ++ [i]
        lines := e.lines ++ Array.replicate 1 (source.lineOf s.span.start + 1) } := by
  obtain ⟨labels, body, span⟩ := s
  obtain rfl : body = some (.instr i.source) := hs.body
  obtain ⟨cursor, text, lines, data, errors⟩ := e
  obtain rfl : cursor = .behindCode count := hcursor
  show addInstr symbols _ span _ i.source = _
  unfold addInstr
  simp only [Instr.expand_source hnormal (Cursor.region_behindCode h), i.source_wordCount,
    Nat.mul_one, Cursor.advance?_behindCode h]
  rfl

theorem foldl_add_written {statements : List Statement} {instrs : List Instr}
    (h : List.Forall₂ Statement.Written statements instrs) (hnormal : ∀ i ∈ instrs, i.Normal)
    {count : Nat} (hsize : count + instrs.length ≤ 2 ^ 22)
    (hcursor : e.cursor = .behindCode count) :
    (statements.foldl (add symbols source) e).errors = e.errors ∧
      (statements.foldl (add symbols source) e).text.toList = e.text.toList ++ instrs := by
  induction h generalizing e count with
  | nil => exact ⟨rfl, (List.append_nil _).symm⟩
  | @cons s i statements instrs hs _ ih =>
    rw [List.forall_mem_cons] at hnormal
    rw [List.length_cons] at hsize
    have hadd : e.add symbols source s = _ := add_written hs hnormal.1 (by omega) hcursor
    have hnext : (e.add symbols source s).cursor = .behindCode (count + 1) := by rw [hadd]
    obtain ⟨herrors, htext⟩ := ih hnormal.2 (by omega) hnext
    rw [List.foldl_cons]
    refine ⟨herrors.trans (by rw [hadd]), htext.trans ?_⟩
    rw [hadd, Array.toList_appendList, List.append_assoc]
    rfl

end Emission

/-! ## The whole way -/

/-- Statements that instructions were written as make a program of these instructions, and no
error. -/
theorem Program.ofStatements_written {statements : List Statement} {instrs : List Instr}
    (h : List.Forall₂ Statement.Written statements instrs) (hnormal : ∀ i ∈ instrs, i.Normal)
    (hsize : instrs.length ≤ 2 ^ 22) (source : Source) :
    (ofStatements statements source).2 = [] ∧
      (ofStatements statements source).1.text.toList = instrs := by
  have hroom : 0 + instrs.length ≤ 2 ^ 22 := by rwa [Nat.zero_add]
  have hdefinitions : Definitions.ofStatements statements =
      { cursor := .behindCode (0 + instrs.length) } :=
    Definitions.foldl_add_written h hroom
  have hinitial : ({} : Emission).cursor = .behindCode 0 := rfl
  obtain ⟨herrors, htext⟩ :
      (Emission.ofStatements .empty source statements).errors = #[] ∧
        (Emission.ofStatements .empty source statements).text.toList = [] ++ instrs :=
    Emission.foldl_add_written h hnormal hroom hinitial
  unfold ofStatements
  rw [hdefinitions]
  refine ⟨?_, htext⟩
  show [] ++ (Emission.ofStatements .empty source statements).errors.toList ++ [] ++ [] = []
  rw [herrors]
  rfl

/-- The text of normal instructions has no problems, and its program consists of these instructions,
as long as the text segment can hold them. -/
theorem Instr.reassembles {instrs : List Instr} (hne : instrs ≠ [])
    (hnormal : ∀ i ∈ instrs, i.Normal) (hsize : instrs.length ≤ 2 ^ 22) :
    (assemble (.ofString (sourceText instrs))).problems = [] ∧
      (assemble (.ofString (sourceText instrs))).program.text.toList = instrs := by
  obtain ⟨hstatements, hparse⟩ := parse_sourceText hne hnormal
  obtain ⟨herrors, htext⟩ := Program.ofStatements_written hstatements hnormal hsize
    (.ofString (sourceText instrs))
  have hok : (assemble (.ofString (sourceText instrs))).isOk = true := by
    refine (assemble_isOk_iff _).mpr ⟨hparse, herrors, fun hempty => hne ?_⟩
    rw [← htext]
    exact congrArg Array.toList hempty
  exact ⟨List.isEmpty_iff.mp hok, htext⟩

/-- Operands in another order, or with a sign, and a jump. -/
theorem Instr.reassembles_mixed :
    let instrs : List Instr :=
      [.alu .srav 8 9 10, .aluImm .addiu 8 8 (Imm.truncate 0xFFFF),
        .aluImm .xori 8 8 (Imm.truncate 0xFFFF), .shift .sra 8 8 (Imm.truncate 31),
        .branch .bltz 8 0 (Imm.truncate (-5)), .store .half 8 29 (Imm.truncate (-0x8000)),
        .jal 0x3FFFFFF]
    sourceText instrs = "srav $t0, $t2, $t1\naddiu $t0, $t0, -1\nxori $t0, $t0, 0xFFFF\n" ++
        "sra $t0, $t0, 31\nbltz $t0, -5\nsh $t0, -32768($sp)\njal 0x0FFFFFFC" ∧
      instrs ≠ [] ∧ (∀ i ∈ instrs, i.Normal) ∧ instrs.length ≤ 2 ^ 22 ∧
      (assemble (.ofString (sourceText instrs))).problems = [] ∧
      (assemble (.ofString (sourceText instrs))).program.text.toList = instrs := by
  intro instrs
  have hne : instrs ≠ [] := by decide
  have hnormal : ∀ i ∈ instrs, i.Normal := by decide +kernel
  have hsize : instrs.length ≤ 2 ^ 22 := by decide
  exact ⟨by decide +kernel, hne, hnormal, hsize, reassembles hne hnormal hsize⟩

end MipsLab
