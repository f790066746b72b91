import CilSsa.Lowering.Names
import CilSsa.Lowering.TypeMap

/-!
Functions of methods and globals of static fields, made when they are first asked for.
-/

namespace CilSsa.Lowering

open CilSsa.Metadata CilSsa.Ssa

/-- The linkage of the function of a method: only bodies that are not public stay inside the
module. -/
def linkageOf (d : MethodDef) : Linkage :=
  if d.body.isNone || d.visibility = .publicAccess then .external else .internal

variable (asm : Assembly)

def declareFunction (m : MethodId) : Lower FunctionId := do
  let name ← Names.method asm m
  match (← get).registry.function? name with
  | some f => return f
  | none => do
      let d ← asm.method m
      let type ← functionType asm d
      let f ← Build.addFunction name type (linkageOf d)
      Registering.addFunction name f
      return f

def staticField (f : FieldId) : Lower ValueId := do
  match (← get).registry.staticField? f with
  | some global => return global
  | none => do
      let d ← asm.field f
      let type ← irType asm d.sig
      let global ← Build.addGlobal (← Names.staticField asm f) type
      Registering.addStaticField asm f global
      return global

end CilSsa.Lowering
