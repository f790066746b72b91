import CilSsa.Lowering.Emit.State

/-!
Arguments and locals.
-/

namespace CilSsa.Lowering.Emit

open CilSsa.Metadata CilSsa.Ssa

/-- The number of a variable: from the operation, or else from an operand of the right kind. -/
def variablePosition? (kind : VariableKind) (fixed : Option Nat) (operand : Operand) :
    Option Nat :=
  match fixed, kind, operand with
  | some position, _, _ => some position
  | none, .argument, .arg position => some position
  | none, .local, .loc position => some position
  | _, _, _ => none

def variable_ (site : Site) (kind : VariableKind) (fixed : Option Nat) : Emit Variable :=
  let (slots, problem) := match kind with
    | .argument => (site.args, OperandProblem.noSuchArgument)
    | .local => (site.locals, OperandProblem.noSuchLocal)
  match (variablePosition? kind fixed site.instr.operand).bind (slots[·]?) with
  | some v => return v
  | none => malformed site problem

/-- `ldarg` and `ldloc`. -/
def loadVariable (site : Site) (kind : VariableKind) (fixed : Option Nat) : Emit Unit := do
  let v ← variable_ site kind fixed
  let value ← Build.load v.type v.pointer
  push (← lower (toStack site.asm value v.sig))

/-- `ldarga` and `ldloca`. -/
def loadVariableAddress (site : Site) (kind : VariableKind) : Emit Unit := do
  let v ← variable_ site kind none
  let type ← lower (Build.query (·.typeOf v.pointer))
  push ⟨v.pointer, .byRef v.sig, type⟩

/-- `starg` and `stloc`. -/
def storeVariable (site : Site) (kind : VariableKind) (fixed : Option Nat) : Emit Unit := do
  let v ← variable_ site kind fixed
  let e ← pop site
  let signed ← lower (isSigned site.asm e.sig)
  let value ← lower (coerce e.value v.type signed)
  Build.store v.pointer value site.instr.isVolatile

end CilSsa.Lowering.Emit
