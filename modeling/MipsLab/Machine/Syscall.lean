import MipsLab.Machine.Execution

/-!
# System calls

The services that a program asks for by the code in `$v0`: printing, reading, more heap, and the
end.
-/

namespace MipsLab

namespace Machine

/-- The bytes of a line as they are put into a buffer of `size` bytes: the line with a newline, as
far as there is room, and a zero. -/
def lineBytes (line : String) (size : Nat) : List UInt8 :=
  (Bytes.utf8 line ++ [newlineByte]).take (size - 1) ++ [0]

/-- How many bytes the heap grows by on a request: as many as keep its end on a multiple of four. -/
def heapRequest (requested : Word) : Nat :=
  let rounded := roundUp requested.toNat 4
  if rounded ≤ Word.maxUnsigned then rounded else requested.toNat

end Machine

namespace Work

/-- Prints the bytes from an address on up to a zero. -/
def printString (a : Address) : Work Unit := do
  let bytes ← onMemory (·.readString a)
  print (·.write .stdout bytes.toList)

/-- Reads a line into a buffer. A buffer of one byte gets a zero and takes no line, and one of no
bytes gets nothing. -/
def readLineInto (a : Address) (size : Int) : Work Unit := do
  if size ≤ 0 then return
  if size = 1 then
    change (.writeBytes a [0])
  else
    let line ← read Console.readLine
    change (.writeBytes a (Machine.lineBytes line size.toNat))

/-- Lets the heap grow, and answers where the new part starts. -/
def growHeap (requested : Word) : Work Unit := do
  let before := UInt32.ofNat (← get).memory.brk
  let after ← change (.growHeap (Machine.heapRequest requested))
  setRegister Reg.v0 before
  emit (.heapGrew before (UInt32.ofNat after))

/-- Ends the program. -/
def exit (code : Int) : Work Unit := stop (.halt (.exit code))

/-- The service of a code. -/
def service (code arg : Word) : Work Unit :=
  match code.toNat with
  | 1 => print (·.printInt .stdout (Word.signed arg))
  | 4 => printString arg
  | 5 => do setRegister Reg.v0 (Word.ofInt (← read Console.readInt))
  | 8 => do readLineInto arg (Word.signed (← register Reg.a1))
  | 9 => growHeap arg
  | 10 => exit 0
  | 11 => print (·.printChar .stdout (UInt8.ofNat arg.toNat))
  | 12 => do setRegister Reg.v0 (UInt32.ofNat (← read Console.readChar).toNat)
  | 17 => exit (Word.signed arg)
  | _ => fail (.invalidSyscall code)

/-- Provides the service that a program asks for. -/
def syscall : Work Unit := do
  let code ← register Reg.v0
  let arg ← register Reg.a0
  service code arg

end Work

end MipsLab
