import MipsLab.Text.Numeral

/-!
# Requests

What the arguments of the command line ask for: to check a source text, or to run it with options.

Arguments are first sorted into items, from left to right: paths, flags (`--name`) and settings
(`--name value` or `--name=value`); behind `--` all arguments are paths. Then the items are taken in
one by one. The first one that cannot be taken in decides: a wrong item means a wrong usage, and a
flag for help means help.
-/

namespace MipsLab.CommandLine

/-- The options of a run. -/
structure RunOptions where
  path : String
  /-- How large the heap may become, in bytes. -/
  heapSize : Option Nat := none
  /-- How large the stack is, in bytes. -/
  stackSize : Option Nat := none
  /-- How many milliseconds to wait before each instruction. -/
  delay : Option Nat := none
  /-- The seed of what the machine holds at first, which otherwise is zero. -/
  seed : Option Nat := none
  /-- Whether signed sums and differences that are out of range wrap. -/
  wraps : Bool := false
  /-- How many instructions to execute at most. -/
  maxSteps : Option Nat := none
  isTraced : Bool := false
  /-- The labels at which to show the registers. -/
  breaks : List String := []
  deriving DecidableEq, Repr

/-- What the user asks for. -/
inductive Request
  | check (path : String) (asJson : Bool)
  | run (options : RunOptions)
  deriving DecidableEq, Repr

/-- Why arguments are no request. -/
inductive Refusal
  | help
  | version
  | usage
  deriving DecidableEq, Repr

namespace Refusal

def exitCode : Refusal → UInt8
  | help | version => 0
  | usage => 2

def usageText : String :=
  "usage: mips-lab check FILE [--json]\n"
    ++ "       mips-lab run FILE [--heap-size BYTES] [--stack-size BYTES] [--seed SEED]\n"
    ++ "                [--no-overflow-traps] [--delay-ms MS] [--max-steps N] [--step]\n"
    ++ "                [--break LABEL]...\n"
    ++ "       mips-lab help [COMMAND]\n"

def text : Refusal → String
  | version => "mips-lab 0.1.0\n"
  | help | usage => usageText

end Refusal

/-! ## Items -/

/-- An item of the command line. -/
inductive Item
  | path (path : String)
  | flag (name : String)
  | setting (name value : String)
  /-- An argument that is none of these. -/
  | wrong
  deriving DecidableEq, Repr

/-- Whether an argument starts like a flag, so that it is no value of a setting before it. -/
def looksLikeFlag (arg : String) : Bool :=
  match arg.toList with
  | '-' :: _ :: _ => true
  | _ => false

/-- Splits the part of an argument behind its dashes into a name and the value behind the first
equals sign, if there is one. -/
def splitSetting (body : List Char) : String × Option String :=
  let name := String.ofList (body.takeWhile (· ≠ '='))
  match body.dropWhile (· ≠ '=') with
  | [] => (name, none)
  | _ :: value => (name, some (String.ofList value))

/-- Sorts arguments into items; `settings` are the names that take a value, and `pending` is one
that still has to get its value. Nothing behind a wrong item matters. -/
def itemsFrom (settings : List String) (pending : Option String) : List String → List Item
  | [] => (pending.map fun _ => Item.wrong).toList
  | arg :: rest =>
    match pending, arg.toList with
    | some name, _ =>
      if looksLikeFlag arg then [.wrong] else .setting name arg :: itemsFrom settings none rest
    | none, ['-', '-'] => rest.map .path
    | none, '-' :: '-' :: body =>
      match splitSetting body with
      | (name, some value) => .setting name value :: itemsFrom settings none rest
      | (name, none) =>
        if settings.contains name then itemsFrom settings (some name) rest
        else .flag name :: itemsFrom settings none rest
    | none, '-' :: 'h' :: _ => [.flag "help"]
    | none, '-' :: _ :: _ => [.wrong]
    | none, _ => .path arg :: itemsFrom settings none rest

/-- Sorts arguments into items; `settings` are the names that take a value. -/
def items (settings args : List String) : List Item := itemsFrom settings none args

/-! ## Values -/

/-- Reads a number of at most 32 bits, with an optional sign. -/
def smallNumber? (value : String) : Option Nat :=
  (Numeral.readInteger? 0 0xFFFFFFFF value.toList).map Int.toNat

/-- Reads a number of at most 64 bits, with an optional plus sign. -/
def largeNumber? (value : String) : Option Nat :=
  if value.toList.head? = some '-' then none
  else (Numeral.readInteger? 0 0xFFFFFFFFFFFFFFFF value.toList).map Int.toNat

/-- The size of the largest stack, which is in memory as a whole. -/
def maxStackSize : Nat := 0x4000000

/-- Sets what may be set once, to a value that has to make sense. -/
def once {α : Type} (before : Option α) (value : Option α) : Except Refusal (Option α) :=
  match before, value with
  | none, some value => .ok (some value)
  | _, _ => .error .usage

/-- Raises a flag that may be raised once. -/
def raise (before : Bool) : Except Refusal Bool := if before then .error .usage else .ok true

/-- The path of a source text, which may be given once and is not empty. -/
def oncePath (before : Option String) (path : String) : Except Refusal (Option String) :=
  once before (if path.isEmpty then none else some path)

/-! ## Requests -/

/-- Takes in an item of a request to check; the state is the path so far, and whether to write
JSON. -/
def takeCheckItem (draft : Option String × Bool) : Item → Except Refusal (Option String × Bool)
  | .path path => do return (← oncePath draft.1 path, draft.2)
  | .flag "json" => do return (draft.1, ← raise draft.2)
  | .flag "help" => .error .help
  | _ => .error .usage

/-- The names of the settings of a run. -/
def runSettings : List String :=
  ["heap-size", "stack-size", "delay-ms", "seed", "max-steps", "break"]

/-- Takes in an item of a request to run. The options have no path as long as theirs is empty. -/
def takeRunItem (o : RunOptions) : Item → Except Refusal RunOptions
  | .path path => do
    let path ← oncePath (if o.path.isEmpty then none else some o.path) path
    return { o with path := path.getD "" }
  | .flag "no-overflow-traps" => do return { o with wraps := ← raise o.wraps }
  | .flag "step" => do return { o with isTraced := ← raise o.isTraced }
  | .flag "help" => .error .help
  | .setting "heap-size" v => do return { o with heapSize := ← once o.heapSize (smallNumber? v) }
  | .setting "stack-size" v => do
    let size := (smallNumber? v).filter (· ≤ maxStackSize)
    return { o with stackSize := ← once o.stackSize size }
  | .setting "delay-ms" v => do return { o with delay := ← once o.delay (largeNumber? v) }
  | .setting "seed" v => do return { o with seed := ← once o.seed (largeNumber? v) }
  | .setting "max-steps" v => do return { o with maxSteps := ← once o.maxSteps (largeNumber? v) }
  | .setting "break" label => .ok { o with breaks := o.breaks ++ [label] }
  | _ => .error .usage

def readCheck (args : List String) : Except Refusal Request := do
  match ← (items [] args).foldlM takeCheckItem (none, false) with
  | (some path, asJson) => return .check path asJson
  | (none, _) => throw .usage

def readRun (args : List String) : Except Refusal Request := do
  let options ← (items runSettings args).foldlM takeRunItem { path := "" }
  if options.path.isEmpty then throw .usage
  return .run options

def commands : List String := ["check", "run", "help"]

/-- What a flag in the place of a command asks for. -/
def refusalOfFlag (arg : String) : Refusal :=
  match arg.toList with
  | '-' :: 'h' :: _ => .help
  | '-' :: 'V' :: _ => .version
  | _ => if arg = "--help" then .help else if arg = "--version" then .version else .usage

/-- What the arguments ask for. Help can be asked for a command, by its name. -/
def Request.ofArguments : List String → Except Refusal Request
  | [] => .error .usage
  | "check" :: args => readCheck args
  | "run" :: args => readRun args
  | ["help"] => .error .help
  | ["help", command] => .error (if commands.contains command then .help else .usage)
  | arg :: _ => .error (refusalOfFlag arg)

end MipsLab.CommandLine
