import MipsLab.Console.Channel

/-!
# Consoles

Where system calls read and write: nowhere, in memory, over channels, or on a console that is not
described here. Every console answers the same requests; reading an integer is reading a line that
has to hold one, unless a console has its own way.
-/

namespace MipsLab

/-- A console of which nothing is known but how its reads end. The outcome of a read is found by the
number of reads before it. -/
structure Script where
  line : Nat → ReadOutcome String
  char : Nat → ReadOutcome UInt8
  number : Nat → ReadOutcome Int
  /-- How many reads there have been. -/
  asked : Nat := 0
  output : Output := {}

/-- The same script after one more read. -/
def Script.next (s : Script) : Script := { s with asked := s.asked + 1 }

/-- Where system calls read and write. -/
inductive Console
  /-- There is no input, and output is lost. -/
  | closed
  | buffered (buffer : Buffer)
  | channel (channel : Channel)
  /-- A console of any other kind. -/
  | foreign (script : Script)

namespace Console

/-! ## Reading -/

/-- Reads a line without its newline. -/
def readLine : Console → ReadOutcome String × Console
  | closed => (.failed .closed, closed)
  | buffered b => let (r, b) := b.readLine; (r, buffered b)
  | channel c => let (r, c) := c.readLine; (r, channel c)
  | foreign s => (s.line s.asked, foreign s.next)

def readChar : Console → ReadOutcome UInt8 × Console
  | closed => (.failed .closed, closed)
  | buffered b => let (r, b) := b.readChar; (r, buffered b)
  | channel c => let (r, c) := c.readChar; (r, channel c)
  | foreign s => (s.char s.asked, foreign s.next)

/-- Reads a line that holds an integer. A line that does not is used up all the same. -/
def readInt : Console → ReadOutcome Int × Console
  | foreign s => (s.number s.asked, foreign s.next)
  | console => let (r, console) := console.readLine; (r.andThen integerOfLine, console)

/-- Cancels the read that is waiting, if there is one. -/
def cancelRead : Console → Console
  | channel c => channel c.cancelRead
  | console => console

def push (console : Console) (bytes : List UInt8) : Console :=
  match console with
  | closed => closed
  | buffered b => buffered (b.push bytes)
  | channel c => channel (c.push bytes)
  | foreign s => foreign s

def closeInput : Console → Console
  | channel c => channel c.close
  | console => console

/-! ## Writing -/

def write (console : Console) (stream : Stream) (bytes : List UInt8) : Console :=
  match console with
  | closed => closed
  | buffered b => buffered { b with output := b.output.write stream bytes }
  | channel c => channel (c.write stream bytes)
  | foreign s => foreign { s with output := s.output.write stream bytes }

def printInt (console : Console) (stream : Stream) (n : Int) : Console :=
  console.write stream (Bytes.utf8 (String.ofList (Numeral.signedDecimal n)))

def printChar (console : Console) (stream : Stream) (b : UInt8) : Console :=
  console.write stream [b]

def output : Console → Output
  | closed => {}
  | buffered b => b.output
  | channel c => c.output
  | foreign s => s.output

end Console

end MipsLab
