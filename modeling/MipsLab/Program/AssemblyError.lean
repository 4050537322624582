import MipsLab.Diagnostic
import MipsLab.Immediate

/-!
# Assembly errors

Why statements that are well formed do not make a program: labels that are missing or defined twice,
statements in the wrong segment, segments that outgrow their room, and targets out of reach.
-/

namespace MipsLab

/-- The label at which execution starts, if it is defined. -/
def entryLabel : String := "main"

/-- The greatest number of bytes of a segment. It is a multiple of every alignment that a directive
can ask for. -/
def segmentLimit : Nat := 0x1000000

/-- Why statements do not make a program. -/
inductive AssemblyCause
  | duplicateLabel
  | misplacedDirective
  | misplacedInstr
  | segmentTooLarge
  /-- The entry label is no instruction's. -/
  | entryNotInText
  | undefinedLabel
  /-- A branch offset does not fit its bits. -/
  | branchTooFar (cause : ImmError)
  | misalignedTarget
  /-- A jump leads out of the 256 MiB region of the instruction after it. -/
  | jumpOutOfRegion
  deriving DecidableEq, Repr

/-- Why statements do not make a program, and where. -/
structure AssemblyError where
  cause : AssemblyCause
  spans : Spans
  deriving DecidableEq, Repr

namespace AssemblyCause

def message : AssemblyCause → String
  | duplicateLabel => "label was defined multiple times"
  | misplacedDirective => "data directive cannot be used in the .text segment"
  | misplacedInstr => "instruction cannot be used in the .data segment"
  | segmentTooLarge => "segment is too large"
  | entryNotInText => s!"'{entryLabel}' must label an instruction"
  | undefinedLabel => "label was never defined"
  | branchTooFar cause => s!"branch target is too far away: {cause.message}"
  | misalignedTarget => "branch or jump target is not word aligned"
  | jumpOutOfRegion => "jump target is out of range"

def help : AssemblyCause → String
  | duplicateLabel => "labels must be unique within a file, try renaming one of the labels"
  | misplacedDirective => "try adding a .data directive before this line"
  | misplacedInstr => "try adding a .text directive before this line"
  | segmentTooLarge => s!"a segment can hold at most {segmentLimit} bytes"
  | entryNotInText => "move this label into the .text segment"
  | undefinedLabel => "try adding this label before an instruction or directive"
  | branchTooFar _ => "use j to jump to far away labels"
  | misalignedTarget => "branches and jumps can only target instructions"
  | jumpOutOfRegion => "use jr to jump to addresses in a different region"

def causes : AssemblyCause → List String
  | branchTooFar cause => [cause.message]
  | _ => []

end AssemblyCause

namespace AssemblyError

def single (cause : AssemblyCause) (span : Span) : AssemblyError := ⟨cause, .one span⟩

/-- The error as it is told to the user. -/
def diagnostic (e : AssemblyError) : Diagnostic :=
  { message := e.cause.message
    help := some e.cause.help
    spans := some e.spans
    causes := e.cause.causes }

end AssemblyError

end MipsLab
