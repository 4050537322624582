import MipsLab.Text.WordCharacter
import MipsLab.Text.Numeral

/-!
# General purpose registers

The 32 registers, their conventional names, and reading a register from the way it is written in a
source text: by number (`$29`) or by name (`$sp`, with `$s8` as a second name of `$fp`).
-/

namespace MipsLab

/-- A general purpose register, by its number. -/
abbrev Reg := Fin 32

namespace Reg

/-- There is a register zero, so registers can be written as numerals. -/
instance neZero : @NeZero Nat Zero.ofOfNat0 32 := ⟨by decide⟩

/-! ## The registers with a role of their own -/

/-- Always reads as zero, and discards what is written to it. -/
def zero : Reg := 0
/-- The temporary that expansions of pseudo-instructions use. -/
def scratch : Reg := 1
/-- Results, and the code of a system call. -/
def v0 : Reg := 2
/-- The first argument. -/
def a0 : Reg := 4
/-- The second argument. -/
def a1 : Reg := 5
/-- The third argument. -/
def a2 : Reg := 6
/-- The fourth argument. -/
def a3 : Reg := 7
/-- The pointer into the middle of the static data. -/
def gp : Reg := 28
/-- The stack pointer. -/
def sp : Reg := 29
/-- The frame pointer, also known as `$s8`. -/
def fp : Reg := 30
/-- The return address, which the linking jumps write. -/
def ra : Reg := 31

/-! ## Names -/

def names : Vector String 32 := #v[
  "$zero", "$at", "$v0", "$v1", "$a0", "$a1", "$a2", "$a3",
  "$t0", "$t1", "$t2", "$t3", "$t4", "$t5", "$t6", "$t7",
  "$s0", "$s1", "$s2", "$s3", "$s4", "$s5", "$s6", "$s7",
  "$t8", "$t9", "$k0", "$k1", "$gp", "$sp", "$fp", "$ra"]

def name (r : Reg) : String := names.get r

/-- All registers, in order of their numbers. -/
def all : List Reg := List.finRange 32

/-- The register with a number, if there is one. -/
def ofNumber? (n : Nat) : Option Reg := if h : n < 32 then some ⟨n, h⟩ else none

/-- Reads a register number, which has no leading zero. -/
def ofDigits? (digits : List Char) : Option Reg :=
  if digits.length > 1 ∧ digits.head? = some '0' then none
  else match Numeral.read 10 31 digits with
    | .ok n => ofNumber? n
    | .error _ => none

/-- Reads a register as it is written, with its leading dollar sign. -/
def ofName? (written : String) : Option Reg :=
  match written.toList with
  | '$' :: rest =>
    if (rest.head?.map Text.isAsciiDigit).getD false then ofDigits? rest
    else if written = "$s8" then some fp
    else all.find? fun r => r.name = written
  | _ => none

end Reg

end MipsLab
