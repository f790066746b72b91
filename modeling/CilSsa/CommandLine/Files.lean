import CilSsa.CommandLine.Path

/-!
Access to files.

The tool reads and writes files through `FileAccess`, which says nothing about where they are.
`Directory` is an access to files in memory: a working directory about whose surroundings nothing
is known.
-/

namespace CilSsa.CommandLine

/-- Why a file cannot be read or written. -/
inductive FileError where
  | notFound
  | notDirectory
  | isDirectory
  | nameTooLong
  | permissionDenied
  | nulInName
  /-- The bytes are no text. -/
  | notText
  | other (text : String)
deriving DecidableEq, Repr

def FileError.message : FileError → String
  | notFound => "No such file or directory (os error 2)"
  | notDirectory => "Not a directory (os error 20)"
  | isDirectory => "Is a directory (os error 21)"
  | nameTooLong => "File name too long (os error 36)"
  | permissionDenied => "Permission denied (os error 13)"
  | nulInName => "file name contained an unexpected NUL byte"
  | notText => "stream did not contain valid UTF-8"
  | other text => text

/-- Reading and writing texts of files. -/
structure FileAccess (m : Type → Type) where
  read : String → m (Except FileError String)
  write : String → String → m (Except FileError Unit)

/-- Files by the parts of their paths, which lead down from a working directory. -/
structure Directory where
  files : List (List String × String)
deriving DecidableEq, Repr

namespace Directory

def ofFiles (files : List (String × String)) : Directory :=
  ⟨files.map fun (path, text) => (pathParts path, text)⟩

def mostNameBytes : Nat := 255

/-- The bytes that a path may have, a zero byte at its end included. -/
def mostPathBytes : Nat := 4096

/-- Where a walk along a path stands. -/
inductive Place where
  | inside (path : List String)
  /-- Above the working directory, where no names are known. -/
  | outside
deriving DecidableEq, Repr

/-- The directory above a place. -/
def Place.parent : Place → Place
  | inside [] => outside
  | inside path => inside path.dropLast
  | outside => outside

variable (d : Directory)

def text? (path : List String) : Option String := d.files.lookup path

/-- Whether files lie below a path. -/
def isDirectory (path : List String) : Bool :=
  d.files.any fun (file, _) => path.isPrefixOf file && path.length < file.length

def named (place : Place) (name : String) : Except FileError (List String) :=
  if name.utf8ByteSize > mostNameBytes then .error .nameTooLong
  else
    match place with
    | .inside path => .ok (path ++ [name])
    | .outside => .error .notFound

/-- Goes on to the directory that a part of a path names. -/
def enter (place : Place) (part : String) : Except FileError Place :=
  if staysInPlace part then .ok place
  else if part = ".." then .ok place.parent
  else do
    let path ← named place part
    if d.isDirectory path then return .inside path
    else throw (if (d.text? path).isSome then .notDirectory else .notFound)

def start (path : String) : Place :=
  if path.toList.head? = some '/' then .outside else .inside []

/-- Refuses texts that are no paths. -/
def checkPath (path : String) : Except FileError Unit :=
  if path.toList.contains (Char.ofNat 0) then .error .nulInName
  else if path.isEmpty then .error .notFound
  else if path.utf8ByteSize ≥ mostPathBytes then .error .nameTooLong
  else .ok ()

def namesDirectory (part : String) : Bool := staysInPlace part || part = ".."

/-- The text of the file that a path leads to. -/
def read (path : String) : Except FileError String := do
  checkPath path
  let parts := pathParts path
  let place ← parts.dropLast.foldlM d.enter (start path)
  let last := parts.getLastD ""
  if namesDirectory last then throw .isDirectory
  else
    let file ← named place last
    match d.text? file with
    | some text => return text
    | none => throw (if d.isDirectory file then .isDirectory else .notFound)

def withoutEnd (path : String) : List String :=
  ((pathParts path).reverse.dropWhile (· = "")).reverse

/-- The files with the text of one of them replaced, or with one more. -/
def put (path : List String) (text : String) :
    List (List String × String) → List (List String × String)
  | [] => [(path, text)]
  | (file, old) :: rest =>
      if file = path then (file, text) :: rest else (file, old) :: put path text rest

/-- The directory after a file is written. -/
def write (path text : String) : Except FileError Directory := do
  checkPath path
  let parts := withoutEnd path
  let place ← parts.dropLast.foldlM d.enter (start path)
  let last := parts.getLastD ""
  if namesDirectory last || (pathParts path).getLast? = some "" then throw .isDirectory
  else
    let file ← named place last
    if d.isDirectory file then throw .isDirectory
    else return ⟨put file text d.files⟩

/-- The files that are new or different, by their paths. -/
def changes (before after : Directory) : List (String × String) :=
  (after.files.filter fun (path, text) => before.text? path ≠ some text).map
    fun (path, text) => ("/".intercalate path, text)

def access : FileAccess (StateM Directory) where
  read path := fun d => (d.read path, d)
  write path text := fun d =>
    match d.write path text with
    | .ok after => (.ok (), after)
    | .error cause => (.error cause, d)

end Directory

end CilSsa.CommandLine
