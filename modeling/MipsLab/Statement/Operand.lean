import MipsLab.Statement
import MipsLab.Statement.ParseError

/-!
# Operands of a line

The grammar of operands, as readers that take tokens off the front of a line. A reader fails at the
first token that it cannot go on with, and blames that token, or the end of the line if there is
none.
-/

namespace MipsLab

/-- A token and where it is written. -/
structure Located where
  token : Token
  span : Span
  deriving DecidableEq, Repr

/-- Reads something off the front of a line. The number is the offset at which the line ends. -/
abbrev LineReader := ReaderT Nat (StateT (List Located) (Except ParseError))

namespace LineReader

/-! ## Single tokens -/

/-- Fails with an error at a place. -/
def failAt {α : Type} (cause : ParseCause) (span : Span) : LineReader α :=
  throw ⟨cause, span⟩

/-- The next token, which stays where it is. -/
def peek : LineReader (Option Token) := do
  return (← get).head?.map Located.token

/-- Fails because something else is wanted here. -/
def expected {α : Type} (wanted : String) : LineReader α := do
  match ← get with
  | next :: _ => failAt (.expected wanted (some next.token)) next.span
  | [] =>
    let stop ← read
    failAt (.expected wanted none) ⟨stop, stop⟩

/-- Takes the next token if it is of a kind, and tells what it holds and where it stands. -/
def accept? {α : Type} (kind : Token → Option α) : LineReader (Option (α × Span)) := do
  match ← get with
  | next :: rest =>
    match kind next.token with
    | some held =>
      set rest
      return some (held, next.span)
    | none => return none
  | [] => return none

/-- Takes the next token, which has to be of a kind. -/
def require {α : Type} (wanted : String) (kind : Token → Option α) : LineReader (α × Span) := do
  match ← accept? kind with
  | some found => return found
  | none => expected wanted

/-- Takes one certain token if it comes next. -/
def skip? (token : Token) : LineReader Bool := do
  return (← accept? fun t => if t = token then some () else none).isSome

def skip (wanted : String) (token : Token) : LineReader Unit := do
  if !(← skip? token) then expected wanted

end LineReader

namespace Token

def reg? : Token → Option Reg
  | register reg => some reg
  | _ => none

def integer? : Token → Option Int
  | unsigned value => some value.toNat
  | signed value => some value
  | _ => none

/-- The integer that a token writes with a minus sign. -/
def signed? : Token → Option Int
  | signed value => some value
  | _ => none

def name? : Token → Option String
  | identifier name => some name
  | _ => none

/-- The value of a token that is a string literal. -/
def string? : Token → Option String
  | string value => some value
  | _ => none

end Token

namespace LineReader

/-! ## Registers and numbers -/

def register : LineReader Reg := do
  return (← require "register" Token.reg?).1

def comma : LineReader Unit := skip "','" .comma

/-- Reads a register and the comma behind it. -/
def registerComma : LineReader Reg := do
  let reg ← register
  comma
  return reg

/-- Reads an integer, and tells where it stands. -/
def integer : LineReader (Int × Span) := require "integer" Token.integer?

def integerIn (low high : Int) : LineReader Int := do
  let (n, span) ← integer
  if low ≤ n ∧ n ≤ high then return n
  failAt (.outOfRange low high) span

/-- An integer that was read as an immediate. -/
def toImmediate {kind : Signedness} {bits : Nat} (n : Int) (span : Span) :
    LineReader (Imm kind bits) :=
  match Imm.ofInt? n with
  | .ok imm => return imm
  | .error cause => failAt (.immediate cause) span

def immediate {kind : Signedness} {bits : Nat} : LineReader (Imm kind bits) := do
  let (n, span) ← integer
  toImmediate n span

/-- Reads the immediate of an operation: without a sign if it is extended with zeros, otherwise with
one, of which the bits are kept. -/
def operationImmediate (op : ImmOp) : LineReader UImm16 := do
  if op.zeroExtends then immediate
  else
    let imm : SImm16 ← immediate
    return Imm.truncate imm.value

/-! ## Labels and addresses -/

/-- Reads a label if there is one. -/
def label? : LineReader (Option Label) := do
  return (← accept? Token.name?).map fun (name, span) => ⟨name, span.start⟩

/-- Reads the offset behind a label: `+` and an integer, or an integer with a minus sign, or
nothing. -/
def labelOffset : LineReader Int := do
  if ← skip? .plus then integerIn Word.minSigned Word.maxSigned
  else return ((← accept? Token.signed?).map Prod.fst).getD 0

/-- Reads a label with an offset, or a number that is an address. -/
def addressExpr : LineReader AddressExpr := do
  match ← label? with
  | some label => return .label label (← labelOffset)
  | none =>
    match ← accept? Token.integer? with
    | some (n, _) => return .value (Word.ofInt n)
    | none => expected "label or address"

def branchTarget : LineReader BranchTarget := do
  match ← label? with
  | some label => return .label label
  | none =>
    match ← accept? Token.integer? with
    | some (n, span) => return .offset (← toImmediate n span)
    | none => expected "label or offset"

def base : LineReader Reg := do
  skip "'('" .leftParen
  let reg ← register
  skip "')'" .rightParen
  return reg

/-- Reads a memory operand. A number is an offset if a parenthesis follows it, and an address if
none does. -/
def memOperand : LineReader MemOperand := do
  match ← peek with
  | some .leftParen => return .based (Imm.truncate 0) (← base)
  | some (.identifier _) => return .direct (← addressExpr)
  | some (.unsigned _) | some (.signed _) =>
    let (n, span) ← integer
    if (← peek) = some .leftParen then
      let offset ← toImmediate n span
      return .based offset (← base)
    else return .direct (.value (Word.ofInt n))
  | _ => expected "memory operand"

/-! ## Lists and strings -/

/-- Reads further items, each behind a comma, at most `fuel` many. -/
def furtherItems {α : Type} (item : LineReader α) : Nat → LineReader (List α)
  | 0 => return []
  | fuel + 1 => do
    if ← skip? .comma then
      let next ← item
      return next :: (← furtherItems item fuel)
    else return []

/-- Reads one item or more, with commas between them. Every further item takes a token at least, so
the fuel is enough. -/
def items {α : Type} (item : LineReader α) : LineReader (List α) := do
  let first ← item
  let fuel := (← get).length
  return first :: (← furtherItems item fuel)

def string : LineReader String := do
  return (← require "string literal" Token.string?).1

end LineReader

end MipsLab
