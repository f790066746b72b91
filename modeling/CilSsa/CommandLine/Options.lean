import CilSsa.CommandLine.Path
import CilSsa.Ssa.OptLevel

/-!
Options of the command line.
-/

namespace CilSsa.CommandLine

open CilSsa.Ssa

/-- What a run of the tool is asked to do. -/
structure BuildOptions where
  input : String
  /-- Without a path the module goes to the standard output. -/
  output : Option String := none
  module : Option String := none
  optLevel : OptLevel := .o0
  verbose : Bool := false
deriving DecidableEq, Repr

/-- The name of the module: the one asked for, or else the stem of the input. -/
def BuildOptions.moduleName (options : BuildOptions) : String :=
  options.module.getD ((fileStem? options.input).getD "module")

/-- Arguments that make no command. -/
inductive UsageError where
  | outputWithoutPath
  | unknownOption (arg : String)
  | unexpectedArgument (arg : String)
  | missingInput
deriving DecidableEq, Repr

def UsageError.message : UsageError → String
  | outputWithoutPath => "`-o` needs a path"
  | unknownOption arg => s!"unknown option `{arg}`"
  | unexpectedArgument arg => s!"unexpected argument `{arg}`"
  | missingInput => "missing input file"

/-- Why arguments are refused. -/
inductive OptionError where
  | usage (error : UsageError)
  | optLevel (error : OptLevelError)
deriving DecidableEq, Repr

def OptionError.message : OptionError → String
  | usage error => error.message
  | optLevel error => error.message

inductive Argument where
  | output
  | module (name : String)
  | optLevel (text : String)
  | verbose
  | unknown
  | file
deriving DecidableEq, Repr

/-- What follows `start` in a text that begins with it. -/
def after? (start text : String) : Option String :=
  if start.toList.isPrefixOf text.toList then
    some (String.ofList (text.toList.drop start.length))
  else none

def Argument.ofText (arg : String) : Argument :=
  if arg = "-o" then .output
  else if let some name := after? "--module=" arg then .module name
  else if let some level := after? "--opt=" arg then .optLevel level
  else if let some level := after? "-O" arg then .optLevel level
  else if arg = "-v" || arg = "--verbose" then .verbose
  else if (after? "-" arg).isSome then .unknown
  else .file

/-- The options while arguments are read; the input may still be missing. -/
structure PartialOptions where
  input : Option String := none
  output : Option String := none
  module : Option String := none
  optLevel : OptLevel := .o0
  verbose : Bool := false
deriving DecidableEq, Repr

/-- The options once every argument is read. -/
def PartialOptions.finish (p : PartialOptions) : Except OptionError BuildOptions :=
  match p.input with
  | some input => .ok { p with input }
  | none => .error (.usage .missingInput)

/-- Reads arguments from left to right.  The last of several options of a kind counts; the first
argument that cannot be read decides the error. -/
def readArguments (p : PartialOptions) : List String → Except OptionError BuildOptions
  | [] => p.finish
  | arg :: rest =>
      match Argument.ofText arg, rest with
      | .output, [] => .error (.usage .outputWithoutPath)
      | .output, path :: rest => readArguments { p with output := some path } rest
      | .module name, rest => readArguments { p with module := some name } rest
      | .optLevel text, rest =>
          match OptLevel.parse text with
          | .ok optLevel => readArguments { p with optLevel } rest
          | .error error => .error (.optLevel error)
      | .verbose, rest => readArguments { p with verbose := true } rest
      | .unknown, _ => .error (.usage (.unknownOption arg))
      | .file, rest =>
          match p.input with
          | none => readArguments { p with input := some arg } rest
          | some _ => .error (.usage (.unexpectedArgument arg))

/-- The options that arguments ask for. -/
def BuildOptions.parse (args : List String) : Except OptionError BuildOptions :=
  readArguments {} args

end CilSsa.CommandLine
