/-!
Paths of files: names separated by slashes.
-/

namespace CilSsa.CommandLine

/-- Splits a path at its slashes; `current` holds the characters before it, the last first. -/
def splitSlashes (current : List Char) : List Char → List String
  | [] => [String.ofList current.reverse]
  | c :: rest =>
      if c = '/' then String.ofList current.reverse :: splitSlashes [] rest
      else splitSlashes (c :: current) rest

/-- What stands between the slashes of a path. -/
def pathParts (path : String) : List String := splitSlashes [] path.toList

def staysInPlace (part : String) : Bool := part = "" || part = "."

/-- The name that a path ends with; it may end with slashes and dots after it. -/
def fileName? (path : String) : Option String :=
  match ((pathParts path).filter fun part => !staysInPlace part).getLast? with
  | some name => if name = ".." then none else some name
  | none => none

/-- A name up to its last dot.  A name without a dot, or with its only dot in front, is kept. -/
def stem (name : List Char) : List Char :=
  match (name.reverse.dropWhile (· ≠ '.')).drop 1 with
  | [] => name
  | before => before.reverse

/-- The stem of the name that a path ends with. -/
def fileStem? (path : String) : Option String :=
  (fileName? path).map fun name => String.ofList (stem name.toList)

end CilSsa.CommandLine
