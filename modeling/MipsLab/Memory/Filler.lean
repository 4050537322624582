import MipsLab.Bytes
import MipsLab.Word

/-!
# What a machine holds before anything is put there

Registers, the stack and new parts of the heap start out with one known word everywhere, or with the
words of a stream. A stream is a function of the position, and the one of a seed depends on nothing
else, so that the same seed gives the same machine; a filler only has to count how many words it has
handed out.
-/

namespace MipsLab

namespace MachineInit

/-- Mixes a number so that neighbours have nothing in common. -/
def scramble (n : UInt64) : UInt64 :=
  let a := (n ^^^ (n >>> 30)) * 0xBF58476D1CE4E5B9
  let b := (a ^^^ (a >>> 27)) * 0x94D049BB133111EB
  b ^^^ (b >>> 31)

/-- The word at a position of the stream that starts at a number. -/
def streamWord (start : UInt64) (position : Nat) : Word :=
  (scramble (start + UInt64.ofNat (position + 1) * 0x9E3779B97F4A7C15) >>> 32).toUInt32

/-- The streams of the generator that is used unless another one is chosen. -/
def seededWord (seed : UInt64) (position : Nat) : Word := streamWord (scramble seed) position

end MachineInit

/-- Where the words come from that nothing has been written to yet. -/
inductive MachineInit
  /-- The same word everywhere. -/
  | known (value : Word)
  /-- The stream of a seed that the user has chosen. Nothing is assumed about the generator of
  pseudorandom numbers but that the seed and the position make the word. -/
  | seeded (seed : UInt64) (generator : UInt64 → Nat → Word := MachineInit.seededWord)
  /-- Two streams that are not told, one for the registers and one for memory. Nothing at all is
  assumed about them; a machine whose words are to be others after a reset gets new flags first. -/
  | unseeded (registers memory : Nat → Word)

namespace MachineInit

/-- The words that the registers get at first. -/
def registerWords : MachineInit → Nat → Word
  | known value => fun _ => value
  | seeded seed generator => generator seed
  | unseeded registers _ => registers

/-- The words that the stack gets at first, and the heap as it grows. -/
def memoryWords : MachineInit → Nat → Word
  | known value => fun _ => value
  | seeded seed generator => generator seed
  | unseeded _ memory => memory

end MachineInit

/-- Hands out words one after the other. -/
structure Filler where
  stream : Nat → Word
  /-- How many words have been handed out. -/
  used : Nat := 0

namespace Filler

/-- The next word. -/
def next (f : Filler) : Word × Filler := (f.stream f.used, { f with used := f.used + 1 })

/-- How many words it takes to fill some bytes; the last one may be used in part only. -/
def wordsFor (count : Nat) : Nat := (count + 3) / 4

/-- Puts some bytes behind an array, a word at a time, the most significant byte first. -/
def fill (f : Filler) (bytes : ByteArray) (count : Nat) : ByteArray :=
  let whole := (count / 4).fold
    (fun i _ grown => Bytes.appendList grown (Word.bytes (f.stream (f.used + i)))) bytes
  Bytes.appendList whole ((Word.bytes (f.stream (f.used + count / 4))).take (count % 4))

/-- What is left of a filler after some bytes. -/
def skip (f : Filler) (count : Nat) : Filler := { f with used := f.used + wordsFor count }

end Filler

end MipsLab
