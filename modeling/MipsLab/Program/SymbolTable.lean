import MipsLab.Program.Cursor

/-!
# Symbol tables

The first pass of the assembler: the address of every label. A label keeps its first definition. The
labels of a statement that does not belong where it stands are defined all the same, so that their
uses are not reported as well.
-/

namespace MipsLab

/-- A label and its address. -/
structure Symbol where
  label : Label
  address : Address
  deriving DecidableEq, Repr

/-- The labels of a program, in the order of their definition. -/
structure SymbolTable where
  symbols : Array Symbol
  /-- The labels that are made known to other programs, as often as that is written. -/
  globals : Array Label
  deriving DecidableEq, Repr

namespace SymbolTable

def empty : SymbolTable := { symbols := #[], globals := #[] }

def find? (t : SymbolTable) (name : String) : Option Symbol :=
  t.symbols.find? (·.label.name = name)

def address? (t : SymbolTable) (name : String) : Option Address := (t.find? name).map Symbol.address

/-- The symbols in the order of their names. -/
def sorted (t : SymbolTable) : List Symbol :=
  t.symbols.toList.mergeSort fun a b => a.label.name ≤ b.label.name

/-- The least name of an address. -/
def nameAt? (t : SymbolTable) (address : Address) : Option String :=
  (t.sorted.find? (·.address = address)).map (·.label.name)

/-! ## Resolving -/

/-- The address of a label that is used. -/
def resolve (t : SymbolTable) (label : Label) : Except AssemblyError Address :=
  match t.address? label.name with
  | some address => .ok address
  | none => .error (.single .undefinedLabel label.span)

def resolveExpr (t : SymbolTable) : AddressExpr → Except AssemblyError Address
  | .label label offset => (t.resolve label).map (Address.displace · offset)
  | .value address => .ok address

end SymbolTable

/-! ## The first pass -/

/-- The first pass, under way. -/
structure Definitions where
  cursor : Cursor := .initial
  table : SymbolTable := .empty
  /-- Whether a statement has been found not to fit; later ones are not reported. -/
  overflowed : Bool := false
  errors : Array AssemblyError := #[]

namespace Definitions

def report (d : Definitions) (e : AssemblyError) : Definitions :=
  { d with errors := d.errors.push e }

/-- Defines a label at an address. A second definition is reported, together with the first. -/
def define (address : Address) (d : Definitions) (label : Label) : Definitions :=
  match d.table.find? label.name with
  | some first => d.report ⟨.duplicateLabel, .two label.span first.label.span⟩
  | none => { d with table := { d.table with symbols := d.table.symbols.push ⟨label, address⟩ } }

/-- The error of a body that does not belong into the current segment. -/
def misplaced : Option Body → AssemblyCause
  | some (.instr _) => .misplacedInstr
  | _ => .misplacedDirective

def advance (d : Definitions) (s : Statement) : Definitions :=
  match d.cursor.advance? ((s.body.map Body.byteCount).getD 0) with
  | some cursor => { d with cursor }
  | none =>
    if d.overflowed then d
    else { d.report (.single .segmentTooLarge s.span) with overflowed := true }

/-- Notes the label of a directive that makes it known. -/
def declareGlobal (d : Definitions) (s : Statement) : Definitions :=
  match s.body with
  | some (.directive (.globl label)) =>
    { d with table := { d.table with globals := d.table.globals.push label } }
  | _ => d

def add (d : Definitions) (s : Statement) : Definitions :=
  match d.cursor.place? s.body with
  | some cursor =>
    let defined := s.labels.foldl (define (UInt32.ofNat cursor.current)) { d with cursor }
    (defined.declareGlobal s).advance s
  | none =>
    -- The labels are defined nevertheless, or else uses of them would be errors too.
    let reported := d.report (.single (misplaced s.body) s.span)
    s.labels.foldl (define (UInt32.ofNat d.cursor.current)) reported

/-- The first pass over a list of statements. -/
def ofStatements (statements : List Statement) : Definitions := statements.foldl add {}

end Definitions

end MipsLab
