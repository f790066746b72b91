import CilSsa.Lowering.Method

/-!
Programs: all types of an assembly, then all methods, then a function that runs the static
constructors.
-/

namespace CilSsa.Lowering

open CilSsa.Metadata CilSsa.Ssa

/-- What became of the methods of a program, in the order of the types. -/
structure Report where
  compiled : List String := []
  external : List String := []
  skipped : List (String × SkipReason) := []
  /-- The name of the function that runs the static constructors. -/
  staticInit : String := ""
deriving DecidableEq, Repr

def Report.note (r : Report) (name : String) : MethodOutcome → Report
  | .compiled _ => { r with compiled := r.compiled ++ [name] }
  | .external _ => { r with external := r.external ++ [name] }
  | .abstract _ => r
  | .skipped reason => { r with skipped := r.skipped ++ [(name, reason)] }

/-- The methods with functions of their own, and the report so far. -/
structure Progress where
  report : Report := {}
  compiled : List MethodId := []
deriving DecidableEq, Repr

def Progress.note (p : Progress) (m : MethodId) (name : String) (outcome : MethodOutcome) :
    Progress where
  report := p.report.note name outcome
  compiled := match outcome with
    | .compiled _ => p.compiled ++ [m]
    | _ => p.compiled

variable (asm : Assembly) (settings : Settings)

def compileMethodsOf (p : Progress) (ty : TypeDefId) : Lower Progress := do
  let d ← asm.typeDef ty
  d.methods.foldlM (fun p m => do
    let name := d.fullName ++ "::" ++ (← asm.method m).name
    return p.note m name (← compileMethod asm settings m)) p

/-- Emits the function that runs the static constructors, those with a function, in the order of
their types. -/
def emitStaticInit (compiled : List MethodId) : Lower String := do
  let name := Names.staticInit settings.moduleName
  let type ← Build.functionType (← Build.voidType) []
  let f ← Build.addFunction name type .external
  Registering.addFunction name f
  let entry ← Build.appendBlock f "entry"
  Build.positionAtEnd entry
  (← get).registry.cctors.forM fun m => do
    if m ∈ compiled then
      let callee ← declareFunction asm m
      let _ ← Build.call callee []
  Build.ret none
  Lower.finish settings f
  return name

def compileProgram : Lower Report := do
  declareTypes asm
  compileTypes asm
  let p ← asm.userTypes.foldlM (compileMethodsOf asm settings) {}
  return { p.report with staticInit := ← emitStaticInit asm settings p.compiled }

/-- The module of a program and what became of its methods. -/
structure Compilation where
  report : Report
  module : Module
deriving DecidableEq, Repr

/-- Compiles a program into a new module. -/
def compile (asm : Assembly) (settings : Settings) : Except Stop Compilation :=
  match compileProgram asm settings { module := { name := settings.moduleName } } with
  | .ok report session => .ok { report, module := session.module }
  | .error stop _ => .error stop

end CilSsa.Lowering
