import CilSsa.CommandLine.Files
import CilSsa.CommandLine.Options
import CilSsa.Lowering.Program
import CilSsa.Metadata.Codec
import CilSsa.Metadata.Validation
import CilSsa.Ssa.Printer

/-!
Runs of the tool: read an assembly, compile it, and print the module.
-/

namespace CilSsa.CommandLine

open CilSsa.Lowering CilSsa.Metadata CilSsa.Ssa

/-- Why a run fails. -/
inductive ToolError where
  | options (error : OptionError)
  | read (path : String) (cause : FileError)
  | write (path : String) (cause : FileError)
  /-- The text is not the document of an assembly. -/
  | malformed (path : String)
  | invalid (error : MetadataError)
  | lowering (error : LoweringError)
  | fault (fault : Fault)
deriving DecidableEq, Repr

def ToolError.message : ToolError → String
  | options error => error.message
  | read path cause => s!"cannot read `{path}`: {cause.message}"
  | write path cause => s!"cannot write `{path}`: {cause.message}"
  | malformed path => s!"`{path}` is not a valid assembly: the text has another form"
  | invalid error => s!"invalid assembly: {error.message}"
  | lowering error => s!"compilation failed: {error.message}"
  | fault _ => "internal error: an id has no entry"

/-- Stops of a compilation, as failures of a run. -/
def ToolError.ofStop : Stop → ToolError
  | .fault f => fault f
  | .error error => lowering error

def assemblyOf (path text : String) : Except ToolError Assembly :=
  match Assembly.ofText? text with
  | none => .error (.malformed path)
  | some asm =>
      match asm.validate with
      | .ok () => .ok asm
      | .error error => .error (.invalid error)

def compileText (options : BuildOptions) (text : String) : Except ToolError Compilation := do
  let asm ← assemblyOf options.input text
  let settings : Settings := { moduleName := options.moduleName, optLevel := options.optLevel }
  match compile asm settings with
  | .ok compilation => return compilation
  | .error stop => throw (.ofStop stop)

def moduleText (compilation : Compilation) : Except ToolError String :=
  match compilation.module.render with
  | .ok text => .ok text
  | .error f => .error (.fault f)

/-- What a report counts. -/
def summary (report : Report) : String :=
  s!"{report.compiled.length} compiled, {report.external.length} external, " ++
    s!"{report.skipped.length} skipped"

section Access

variable {m : Type → Type} [Monad m] (files : FileAccess m)

def compileFile (options : BuildOptions) : m (Except ToolError Compilation) := do
  match ← files.read options.input with
  | .ok text => return compileText options text
  | .error cause => return .error (.read options.input cause)

/-- Writes the module to the output, or returns its text if there is none. -/
def emitModule (options : BuildOptions) (compilation : Compilation) :
    m (Except ToolError (Option String)) := do
  match moduleText compilation, options.output with
  | .error error, _ => return .error error
  | .ok text, none => return .ok (some text)
  | .ok text, some path =>
      match ← files.write path text with
      | .ok () => return .ok none
      | .error cause => return .error (.write path cause)

end Access

/-- What a run leaves behind, apart from files. -/
structure Outcome where
  exitCode : Nat
  stdout : String := ""
  stderr : String := ""
deriving DecidableEq, Repr

def textOfLines (lines : List String) : String := String.join (lines.map (· ++ "\n"))

/-- How the tool is used. -/
def usageLines : List String :=
  ["Usage: ilc <input.json> [options]",
    "",
    "Options:",
    "  -o <path>           Output file (default: stdout)",
    "  --module=<name>     Module name (default: input file stem)",
    "  --opt=<level>       Optimization: 0, 1, 2, 3 (also -O<level>)",
    "  -v, --verbose       Verbose output"]

def refused (error : OptionError) : Outcome where
  exitCode := 2
  stderr := textOfLines (("error: " ++ error.message) :: match error with
    | .usage _ => "" :: usageLines
    | .optLevel _ => [])

def ToolError.exitCode : ToolError → Nat
  | fault _ => 101
  | _ => 1

/-- The outcome of a failure after lines that are written already. -/
def failed (lines : List String) (error : ToolError) : Outcome where
  exitCode := error.exitCode
  stderr := textOfLines (lines ++ ["error: " ++ error.message])

/-- The lines that show a finished module. -/
def debugLines (compilation : Compilation) : Except ToolError (List String) := do
  let text ← moduleText compilation
  return [s!"=== IR for {compilation.module.name} ===", text, "=== END IR ==="]

/-- A line for every skipped method. -/
def warnings (report : Report) : List String :=
  report.skipped.map fun (name, reason) => s!"warning: skipped `{name}`: {reason.message}"

/-- A run with options that are accepted.  With `debug` the module is shown among the
diagnostics. -/
def runWith {m : Type → Type} [Monad m] (files : FileAccess m) (debug : Bool)
    (options : BuildOptions) : m Outcome := do
  match ← compileFile files options with
  | .error error => return failed [] error
  | .ok compilation =>
      match if debug then debugLines compilation else .ok [] with
      | .error error => return failed [] error
      | .ok shown => do
          let lines := shown ++ warnings compilation.report
          match ← emitModule files options compilation with
          | .error error => return failed lines error
          | .ok text =>
              let last := if options.verbose then [summary compilation.report] else []
              return {
                exitCode := 0
                stdout := text.getD ""
                stderr := textOfLines (lines ++ last) }

def run {m : Type → Type} [Monad m] (files : FileAccess m) (debug : Bool) (args : List String) :
    m Outcome := do
  match BuildOptions.parse args with
  | .error error => return refused error
  | .ok options => runWith files debug options

end CilSsa.CommandLine
