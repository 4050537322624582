/-!
# Files

Where the command line finds the files that it is given by their paths. A path is walked from left
to right, one name at a time, and the first name that leads nowhere decides what is wrong with it.
-/

namespace MipsLab.CommandLine

/-- Why a file cannot be read as a source text. -/
inductive FileError
  /-- What the operating system says, with its number. -/
  | system (description : String) (number : Nat)
  /-- The file is not UTF-8. -/
  | notText
  deriving DecidableEq, Repr

namespace FileError

def notFound : FileError := system "No such file or directory" 2

/-- A file is in the place of a directory. -/
def notDirectory : FileError := system "Not a directory" 20

/-- A directory is in the place of a file. -/
def isDirectory : FileError := system "Is a directory" 21

/-- A path, or a name in it, is longer than any path or name can be. -/
def nameTooLong : FileError := system "File name too long" 36

def message : FileError → String
  | system description number => s!"{description} (os error {number})"
  | notText => "stream did not contain valid UTF-8"

end FileError

/-! ## Paths -/

/-- The names in a path, which are what stands between its slashes. Some of them may be empty. -/
def splitSlashes : List Char → List (List Char)
  | [] => [[]]
  | c :: cs =>
    if c = '/' then [] :: splitSlashes cs
    else match splitSlashes cs with
      | [] => [[c]]
      | name :: names => (c :: name) :: names

def namesOf (path : String) : List String := (splitSlashes path.toList).map String.ofList

/-- The greatest length of a name in bytes. -/
def maxNameLength : Nat := 255

/-- The greatest length of a path in bytes. -/
def maxPathLength : Nat := 4095

/-! ## Places -/

/-- The directories that a walk can start from or come to by going up. -/
inductive Base
  | working
  /-- Any directory above the working directory. -/
  | above
  | root
  deriving DecidableEq, Repr

/-- A place in the file system: names that lead down from a base, the innermost one first. -/
structure Place where
  base : Base
  names : List String := []
  deriving DecidableEq, Repr

namespace Place

def parent : Place → Place
  | ⟨base, _ :: names⟩ => ⟨base, names⟩
  | ⟨.working, []⟩ | ⟨.above, []⟩ => ⟨.above, []⟩
  | ⟨.root, []⟩ => ⟨.root, []⟩

/-- The place of a name in a directory. -/
def child (p : Place) (name : String) : Place := ⟨p.base, name :: p.names⟩

/-- Where the walk of a path starts. -/
def start (path : String) : Place := ⟨if path.toList.head? = some '/' then .root else .working, []⟩

end Place

/-- What can stand in a place. -/
inductive Entry
  | file (bytes : List UInt8)
  | directory
  deriving DecidableEq, Repr

/-! ## The working directory -/

/-- A working directory: the files in it and in the directories below it, each with the names that
lead to it. -/
structure Directory where
  files : List (List String × List UInt8)
  deriving DecidableEq, Repr

namespace Directory

/-- The working directory of files that are given by their paths. -/
def ofFiles (files : List (String × List UInt8)) : Directory :=
  ⟨files.map fun f => (namesOf f.1, f.2)⟩

/-- What stands in a place. Outside of the working directory only what every system has is known:
the directories above, the directories for devices and for temporary files, and the empty device. -/
def entry? (d : Directory) : Place → Option Entry
  | ⟨_, []⟩ | ⟨.root, ["dev"]⟩ | ⟨.root, ["tmp"]⟩ => some .directory
  | ⟨.root, ["null", "dev"]⟩ => some (.file [])
  | ⟨.root, _⟩ | ⟨.above, _⟩ => none
  | ⟨.working, names⟩ =>
    match d.files.lookup names.reverse with
    | some bytes => some (.file bytes)
    | none =>
      if d.files.any fun f => names.reverse.isPrefixOf f.1 then some .directory else none

/-- Walks on from a place. An empty name and a single dot stay in a directory, two dots go up. -/
def readFrom (d : Directory) (place : Place) : List String → Except FileError (List UInt8)
  | [] =>
    match d.entry? place with
    | some (.file bytes) => .ok bytes
    | some .directory => .error .isDirectory
    | none => .error .notFound
  | name :: names =>
    match d.entry? place with
    | some .directory =>
      if name = "" ∨ name = "." then d.readFrom place names
      else if name = ".." then d.readFrom place.parent names
      else if maxNameLength < name.utf8ByteSize then .error .nameTooLong
      else d.readFrom (place.child name) names
    | some (.file _) => .error .notDirectory
    | none => .error .notFound

/-- The bytes of the file at a path. -/
def read (d : Directory) (path : String) : Except FileError (List UInt8) :=
  if path.isEmpty then .error .notFound
  else if maxPathLength < path.utf8ByteSize then .error .nameTooLong
  else d.readFrom (.start path) (namesOf path)

end Directory

end MipsLab.CommandLine
