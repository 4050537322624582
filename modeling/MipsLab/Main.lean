import MipsLab.CommandLine

/-!
# The program

Reads the file and the standard input that the command line asks for, prints what it answers, and
lets time pass where a run is slowed down.
-/

open MipsLab MipsLab.CommandLine

namespace MipsLab.Main

/-- What the operating system says about a file that cannot be read. -/
def fileErrorOf : IO.Error → FileError
  | .noFileOrDirectory _ number description => .system description number.toNat
  | .permissionDenied _ number description => .system description number.toNat
  | .inappropriateType _ number description => .system description number.toNat
  | .invalidArgument _ number description => .system description number.toNat
  | .resourceExhausted _ number description => .system description number.toNat
  | .otherError number description => .system description number.toNat
  | e => .system (toString e) 0

def readFile (path : String) : IO (Except FileError (List UInt8)) := do
  try
    let bytes ← IO.FS.readBinFile path
    return .ok bytes.toList
  catch e => return .error (fileErrorOf e)

/-- Reads up to the end of a line or of the input. -/
partial def readLine (input : IO.FS.Stream) (before : List UInt8) : IO (List UInt8) := do
  let byte ← input.read 1
  match byte.toList with
  | [] => return before.reverse
  | b :: _ => if b = newlineByte then return (b :: before).reverse else readLine input (b :: before)

/-- Prints what a session has to show beyond the bytes and lines shown before. -/
def printNews (s : Session) (bytes lines : Nat) : IO Unit := do
  let out ← IO.getStdout
  out.write (s.output.stdout.extract bytes s.output.stdout.size)
  out.flush
  let err ← IO.getStderr
  for line in s.notes.extract lines s.notes.size do
    err.putStrLn line

/-- How many turns a session makes before its news are printed. -/
def turnsAtOnce (s : Session) : Nat := if s.options.delay.isSome then 1 else 0x10000

/-- Runs a session to its end. -/
partial def runSession (bytes lines : Nat) (s : Session) : IO UInt32 := do
  if s.delay ≠ 0 then IO.sleep (UInt32.ofNat (min s.delay 0xFFFFFFFF))
  let (activity, s) := s.advance (turnsAtOnce s)
  printNews s bytes lines
  let bytes := s.output.stdout.size
  let lines := s.notes.size
  match activity with
  | .busy => runSession bytes lines s
  | .waiting =>
    let line ← readLine (← IO.getStdin) []
    runSession bytes lines (if line.isEmpty then s.closeInput else s.feed line)
  | .ended code => return code.toUInt32

def printAnswer (a : Answer) : IO UInt32 := do
  for line in a.printed do
    IO.println line
  for line in a.notes do
    IO.eprintln line
  return a.code.toUInt32

end MipsLab.Main

def main (args : List String) : IO UInt32 := do
  match Request.ofArguments args with
  | .error refusal =>
    if refusal = .usage then IO.eprint refusal.text else IO.print refusal.text
    return refusal.exitCode.toUInt32
  | .ok request =>
    match respond request (← MipsLab.Main.readFile request.path) with
    | .answer a => MipsLab.Main.printAnswer a
    | .session s => MipsLab.Main.runSession 0 0 s
