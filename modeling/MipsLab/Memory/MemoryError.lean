import MipsLab.Diagnostic
import MipsLab.Word

/-!
# Memory errors

Why memory cannot be read, written or grown.
-/

namespace MipsLab

/-- The heap cannot grow. -/
structure HeapError where
  /-- How many bytes were asked for. -/
  requested : Nat
  /-- The end of the heap. -/
  brk : Address
  /-- The size of the heap. -/
  size : Nat
  deriving DecidableEq, Repr

namespace HeapError

def message (e : HeapError) : String :=
  s!"could not grow heap by {e.requested} bytes (break: {e.brk.text}, heap size: {e.size} bytes)"

def help : String := "the heap cannot grow into the stack or beyond the configured heap size"

/-- The error as it is told to the user. -/
def diagnostic (e : HeapError) : Diagnostic := { message := e.message, help := some help }

end HeapError

/-- Why memory cannot be accessed. -/
inductive MemoryError
  /-- The bytes do not all lie in one region. -/
  | outOfBounds (address : Address)
  | misaligned (address : Address) (alignment : Nat)
  /-- Text is not written to. -/
  | readOnly (address : Address)
  | heap (cause : HeapError)
  deriving DecidableEq, Repr

namespace MemoryError

def message : MemoryError → String
  | outOfBounds address => s!"address {address.text} is out of bounds"
  | misaligned address alignment => s!"address {address.text} is not aligned to {alignment} bytes"
  | readOnly address => s!"address {address.text} is read-only"
  | heap cause => cause.message

def help : MemoryError → String
  | outOfBounds _ =>
    "valid addresses are in the data segment, below the heap's break, or in the stack"
  | misaligned _ alignment =>
    s!"this access requires an address that is a multiple of {alignment}"
  | readOnly _ => "the text segment cannot be written to"
  | heap _ => HeapError.help

def causes : MemoryError → List String
  | heap cause => [cause.message]
  | _ => []

/-- The error as it is told to the user. -/
def diagnostic (e : MemoryError) : Diagnostic :=
  { message := e.message, help := some e.help, causes := e.causes }

end MemoryError

end MipsLab
