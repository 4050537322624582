import MipsLab.Memory.Filler
import MipsLab.Register

/-!
# The register file

The values of the general purpose registers and of `hi` and `lo`. Register `$zero` always holds
zero: writing to it changes nothing.
-/

namespace MipsLab

/-- The values of all registers. -/
structure Registers where
  /-- The general purpose registers. -/
  general : Vector Word 32
  hi : Word
  lo : Word
  zero_holds : general[Reg.zero] = 0
  deriving DecidableEq, Repr

namespace Registers

def get (regs : Registers) (r : Reg) : Word := regs.general[r]

/-- Replaces the value of a general purpose register, which for `$zero` has to be zero again. -/
def store (regs : Registers) (r : Reg) (value : Word) (h : r = Reg.zero → value = 0) : Registers :=
  { regs with
    general := regs.general.set r value
    zero_holds := by
      by_cases hr : r = Reg.zero
      · subst hr
        exact (Vector.getElem_set_self _).trans (h rfl)
      · have hne : r.val ≠ Reg.zero.val := fun hval => hr (Fin.ext hval)
        exact (Vector.getElem_set_ne _ _ hne).trans regs.zero_holds }

def set (regs : Registers) (r : Reg) (value : Word) : Registers :=
  if h : r = Reg.zero then regs else regs.store r value fun hr => absurd hr h

/-- The value of `$sp` and `$fp` at the start: the last word of the stack. -/
def initialStackPointer : Word := 0x7FFFFFFC

/-- The value of `$gp` at the start. -/
def initialGlobalPointer : Word := 0x10008000

/-- The registers when all of them are zero. -/
def zeros : Registers :=
  { general := Vector.replicate 32 0, hi := 0, lo := 0
    zero_holds := Vector.getElem_replicate _ }

/-- Gives a general purpose register the next word of a stream. Register `$zero` gets zero, and none
of the words. -/
def draw (regs : Registers) (filler : Filler) (r : Reg) : Registers × Filler :=
  if h : r = Reg.zero then (regs.store r 0 fun _ => rfl, filler)
  else
    let (value, filler) := filler.next
    (regs.store r value fun hr => absurd hr h, filler)

/-- Gives some general purpose registers the next words of a stream. -/
def drawAll (regs : Registers) (filler : Filler) : List Reg → Registers × Filler
  | [] => (regs, filler)
  | r :: rs =>
    let (regs, filler) := regs.draw filler r
    regs.drawAll filler rs

/-- Sets up the registers in place. All of them get the words of a stream, in order, with `hi` and
`lo` at the end; then the pointers get values of their own, and `$ra` gets zero. -/
def refill (regs : Registers) (filler : Filler) : Registers :=
  let (regs, filler) := regs.drawAll filler Reg.all
  let (hi, filler) := filler.next
  let (lo, _) := filler.next
  (((({ regs with hi, lo }.set Reg.sp initialStackPointer).set Reg.fp
    initialStackPointer).set Reg.gp initialGlobalPointer).set Reg.ra 0)

/-- The registers at the start. -/
def initial (init : MachineInit) : Registers := zeros.refill { stream := init.registerWords }

/-- The values of the general purpose registers, in order. -/
def toList (regs : Registers) : List Word := Reg.all.map regs.get

/-- The registers whose values are not the same in `later`, by name and with their new values. -/
def changes (regs later : Registers) : List (String × Word) :=
  (Reg.all.filter fun r => regs.get r ≠ later.get r).map (fun r => (r.name, later.get r))
    ++ (if regs.hi = later.hi then [] else [("hi", later.hi)])
    ++ (if regs.lo = later.lo then [] else [("lo", later.lo)])

end Registers

end MipsLab
