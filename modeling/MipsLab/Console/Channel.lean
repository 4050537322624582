import MipsLab.Console.Buffer

/-!
# Channels

A console whose input arrives bit by bit, and whose reads can be cancelled while they wait. What a
cancelled read of a line had taken in is kept: the next read goes on with it. A cancellation counts
for the read that waits when it is made, and for no later one.
-/

namespace MipsLab

/-- A console whose input arrives bit by bit. -/
structure Channel where
  /-- The bytes that have arrived and are not read yet. -/
  arrived : List UInt8 := []
  /-- Whether more may arrive. -/
  isOpen : Bool := true
  /-- The start of a line that is being read, or was when the read was cancelled. -/
  partialLine : List UInt8 := []
  /-- Whether a read is waiting. -/
  isReading : Bool := false
  /-- Whether the waiting read has been cancelled. -/
  isCancelled : Bool := false
  output : Output := {}
  /-- How many more writes the receiver of the output takes, if there is a limit. -/
  quota : Option Nat := none

namespace Channel

/-! ## Reading -/

/-- Starts a read, unless one has been waiting. Earlier cancellations do not count for it. -/
def start (c : Channel) : Channel :=
  if c.isReading then c else { c with isReading := true, isCancelled := false }

def finish (c : Channel) : Channel := { c with isReading := false }

/-- What becomes of a read for which there is no input: it ends if no more can come or if it has
been cancelled, and goes on waiting otherwise. -/
def stall {α : Type} (c : Channel) : ReadOutcome α × Channel :=
  if !c.isOpen then (.failed .closed, c.finish)
  else if c.isCancelled then (.failed .cancelled, { c.finish with isCancelled := false })
  else (.waiting, c)

/-- Reads a line without its newline. When no more input can come, what there is makes a line. -/
def readLine (c : Channel) : ReadOutcome String × Channel :=
  let c := c.start
  let (line, after) := splitLine c.arrived
  let line := c.partialLine ++ line
  match after with
  | some rest => (.done (lineText line), { c.finish with arrived := rest, partialLine := [] })
  | none =>
    if !c.isOpen && !line.isEmpty then
      (.done (lineText line), { c.finish with arrived := [], partialLine := [] })
    else { c with arrived := [], partialLine := line }.stall

/-- Reads a byte, first of all from the start of a line that was left over. -/
def readChar (c : Channel) : ReadOutcome UInt8 × Channel :=
  match c.partialLine with
  | b :: rest => (.done b, { c with partialLine := rest })
  | [] =>
    match c.start.arrived with
    | b :: rest => (.done b, { c.start.finish with arrived := rest })
    | [] => c.start.stall

/-- Cancels the read that is waiting, if there is one. -/
def cancelRead (c : Channel) : Channel := if c.isReading then { c with isCancelled := true } else c

/-- More input arrives. What arrives after the end is lost. -/
def push (c : Channel) (bytes : List UInt8) : Channel :=
  if c.isOpen then { c with arrived := c.arrived ++ bytes } else c

def close (c : Channel) : Channel := { c with isOpen := false }

/-! ## Writing -/

/-- Writes bytes to a stream, unless the receiver has stopped. -/
def write (c : Channel) (stream : Stream) (bytes : List UInt8) : Channel :=
  match c.quota with
  | none => { c with output := c.output.write stream bytes }
  | some 0 => c
  | some (left + 1) => { c with output := c.output.write stream bytes, quota := some left }

end Channel

end MipsLab
