import MipsLab.Bytes
import MipsLab.Text.Blank
import MipsLab.Text.Numeral
import MipsLab.Text.Quoted
import MipsLab.Text.Utf8
import MipsLab.Word

/-!
# Streams and buffers

The three standard streams, how a read can end, and a console that keeps all input and output in
memory.
-/

namespace MipsLab

/-- The standard streams. -/
inductive Stream
  | stdin | stdout | stderr
  deriving DecidableEq, Repr

/-- Why a read gives nothing. -/
inductive ReadError
  | cancelled
  | closed
  /-- A line is not what was to be read. -/
  | malformed (line : String)
  deriving DecidableEq, Repr

def ReadError.message : ReadError → String
  | cancelled => "read was cancelled"
  | closed => "input is closed"
  | malformed line => s!"could not parse input {Text.quoted line}"

/-- How a read ends, or that it has to wait. -/
inductive ReadOutcome (α : Type)
  | done (value : α)
  | failed (error : ReadError)
  /-- Nothing decides yet how the read ends. -/
  | waiting
  deriving DecidableEq, Repr

namespace ReadOutcome

/-- Goes on with what was read, which may turn out not to be what was wanted. -/
def andThen {α β : Type} (r : ReadOutcome α) (next : α → Except ReadError β) : ReadOutcome β :=
  match r with
  | done value =>
    match next value with
    | .ok result => done result
    | .error error => failed error
  | failed error => failed error
  | waiting => waiting

end ReadOutcome

/-! ## Lines -/

def newlineByte : UInt8 := 10

/-- Splits bytes at the first newline: the bytes before it, and those behind it if there is one. -/
def splitLine : List UInt8 → List UInt8 × Option (List UInt8)
  | [] => ([], none)
  | b :: rest =>
    if b = newlineByte then ([], some rest)
    else
      let (line, after) := splitLine rest
      (b :: line, after)

/-- The text of a line. -/
def lineText (line : List UInt8) : String := String.ofList (Text.decodeLossy line)

/-- Reads a line as a decimal integer of 32 bits. White space around it does not count. -/
def integerOfLine (line : String) : Except ReadError Int :=
  match Numeral.readInteger? Word.minSigned Word.maxSigned (Text.trim line.toList) with
  | some n => .ok n
  | none => .error (.malformed line)

/-! ## Output -/

/-- What has been written to the two output streams. -/
structure Output where
  stdout : ByteArray := .empty
  stderr : ByteArray := .empty

namespace Output

/-- Writes bytes to a stream. What is written to the input stream goes to the standard output. -/
def write (o : Output) (stream : Stream) (bytes : List UInt8) : Output :=
  match stream with
  | .stderr => { o with stderr := Bytes.appendList o.stderr bytes }
  | _ => { o with stdout := Bytes.appendList o.stdout bytes }

end Output

/-! ## Buffers -/

/-- A console whose input is all there is, and whose output is kept. -/
structure Buffer where
  input : List UInt8 := []
  output : Output := {}

namespace Buffer

/-- Reads a line without its newline. The last line may have none. -/
def readLine (b : Buffer) : ReadOutcome String × Buffer :=
  if b.input.isEmpty then (.failed .closed, b)
  else
    let (line, after) := splitLine b.input
    (.done (lineText line), { b with input := after.getD [] })

def readChar (b : Buffer) : ReadOutcome UInt8 × Buffer :=
  match b.input with
  | [] => (.failed .closed, b)
  | c :: rest => (.done c, { b with input := rest })

def push (b : Buffer) (bytes : List UInt8) : Buffer := { b with input := b.input ++ bytes }

end Buffer

end MipsLab
