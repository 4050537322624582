import MipsLab.Bytes
import MipsLab.Program
import MipsLab.Program.Expansion

/-!
# Emission

The second pass of the assembler: with the address of every label known, the statements become
instructions and bytes. A statement that cannot be resolved is reported and leaves as much room as
it takes, as instructions that do nothing or as zeros, so that nothing behind it moves.
-/

namespace MipsLab

/-- The bytes of a directive. The zeros of an empty space are not among them: they are what any room
holds that nothing is put into. -/
def Directive.bytes (d : Directive) (symbols : SymbolTable) : Except AssemblyError (List UInt8) :=
  match d with
  | word values => do return (← values.mapM symbols.resolveExpr).flatMap Word.bytes
  | half values =>
    .ok (values.flatMap fun v => [UInt8.ofNat (v.toNat / 0x100), UInt8.ofNat v.toNat])
  | byte values => .ok values
  | ascii value => .ok (Bytes.utf8 value)
  | asciiz value => .ok (Bytes.utf8 value ++ [0])
  | _ => .ok []

/-- The second pass, under way. -/
structure Emission where
  cursor : Cursor := .initial
  text : Array Instr := #[]
  lines : Array Nat := #[]
  data : ByteArray := .empty
  errors : Array AssemblyError := #[]

namespace Emission

def report (e : Emission) (error : AssemblyError) : Emission :=
  { e with errors := e.errors.push error }

/-- Puts instructions of one line behind the others. -/
def appendText (e : Emission) (line : Nat) (instrs : List Instr) : Emission :=
  { e with
    lines := e.lines ++ Array.replicate instrs.length line
    text := e.text ++ instrs }

/-- Puts an instruction at the cursor, or instructions that do nothing if it cannot be resolved. -/
def addInstr (symbols : SymbolTable) (line : Nat) (span : Span) (e : Emission) (i : SourceInstr) :
    Emission :=
  let (e, instrs) :=
    match i.expand (UInt32.ofNat e.cursor.current) span symbols with
    | .ok instrs => (e, instrs)
    | .error error => (e.report error, List.replicate i.wordCount Instr.nop)
  match e.cursor.advance? (4 * i.wordCount) with
  | some cursor => { e with cursor }.appendText line instrs
  -- The error stands even if there is no room.
  | none => e

/-- Puts the bytes of a directive at the cursor, with zeros before them up to its alignment and
behind them up to its size. -/
def addData (symbols : SymbolTable) (e : Emission) (d : Directive) : Emission :=
  match e.cursor.advance? d.byteCount with
  | none => e
  | some cursor =>
    let start := e.cursor.data - Segment.data.start
    let stop := cursor.data - Segment.data.start
    let (errors, bytes) :=
      match d.bytes symbols with
      | .ok bytes => (e.errors, bytes)
      | .error error => (e.errors.push error, [])
    { e with
      cursor, errors
      data := Bytes.padTo (Bytes.appendList (Bytes.padTo e.data start) bytes) stop }

/-- Takes in one statement. The ones that do not belong where they stand are left out. -/
def add (symbols : SymbolTable) (source : Source) (e : Emission) (s : Statement) : Emission :=
  match e.cursor.place? s.body with
  | none => e
  | some cursor =>
    match s.body with
    | some (.instr i) =>
      { e with cursor }.addInstr symbols (source.lineOf s.span.start + 1) s.span i
    | some (.directive d) =>
      if d.isData then { e with cursor }.addData symbols d else { e with cursor }
    | none => { e with cursor }

/-- The second pass over a list of statements. -/
def ofStatements (symbols : SymbolTable) (source : Source) (statements : List Statement) :
    Emission :=
  statements.foldl (add symbols source) {}

end Emission

/-! ## Programs of statements -/

namespace Program

/-- Where execution starts: at the entry label, which has to be an instruction's, or else at the
start of the text segment. -/
def resolveEntry (symbols : SymbolTable) (textEnd : Nat) : Address × List AssemblyError :=
  let start := UInt32.ofNat Segment.text.start
  match symbols.find? entryLabel with
  | none => (start, [])
  | some symbol =>
    if Segment.text.start ≤ symbol.address.toNat ∧ symbol.address.toNat < textEnd then
      (symbol.address, [])
    else (start, [.single .entryNotInText symbol.label.span])

/-- The labels that are made known to others and not defined. -/
def undefinedGlobals (symbols : SymbolTable) : List AssemblyError :=
  symbols.globals.toList.filterMap fun label =>
    match symbols.resolve label with
    | .ok _ => none
    | .error error => some error

/-- The program of a list of statements, and the errors of both passes. -/
def ofStatements (statements : List Statement) (source : Source) :
    Program × List AssemblyError :=
  let definitions := Definitions.ofStatements statements
  let symbols := definitions.table
  let emission := Emission.ofStatements symbols source statements
  let { text, lines, data, .. } := emission
  let (entry, entryErrors) := resolveEntry symbols emission.cursor.text
  ({ text, lines, data, entry, symbols, source },
    definitions.errors.toList ++ emission.errors.toList ++ entryErrors ++ undefinedGlobals symbols)

end Program

end MipsLab
