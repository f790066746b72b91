import CilSsa.Metadata.Assembly

/-!
Names of the functions, globals and structs of the module, made from the names in the metadata.
-/

namespace CilSsa.Lowering

open CilSsa.Metadata

/-- Dots and brackets do not stand in names of the module. -/
def mangleChar (c : Char) : Char := if c = '.' ∨ c = '[' ∨ c = ']' then '_' else c

/-- A name with dots and brackets replaced. -/
def mangle (name : String) : String := String.ofList (name.toList.map mangleChar)

namespace Names

variable (asm : Assembly)

def type (ty : TypeDefId) : Except Fault String := return mangle (← asm.typeName ty)

/-- A signature as part of a name. -/
def sig (s : TypeSig) : Except Fault String := return mangle (← asm.sigName s)

/-- The function of a method: result, declaring type, name and parameters. -/
def method (m : MethodId) : Except Fault String := do
  let d ← asm.method m
  let result ← sig asm d.returnType
  let owner ← type asm d.declaringType
  let params ← d.params.mapM fun p => sig asm p.sig
  return result ++ "_" ++ owner ++ "_" ++ mangle d.name ++ "_" ++ String.join params

def staticField (f : FieldId) : Except Fault String := do
  let d ← asm.field f
  return (← type asm d.declaringType) ++ "_" ++ mangle d.name

/-- The routine that allocates objects of a class. -/
def newobj (ty : TypeDefId) : Except Fault String := return "newobj_" ++ (← type asm ty)

/-- The struct of the slots that a type introduces. -/
def vtableType (owner : TypeDefId) : Except Fault String := return (← type asm owner) ++ "_vtable"

/-- The table of the slots of `owner` for objects of `cls`. -/
def vtableInstance (cls owner : TypeDefId) : Except Fault String :=
  return (← type asm cls) ++ "_vtable_" ++ (← type asm owner)

def interfaceTable (cls iface : TypeDefId) : Except Fault String :=
  return (← type asm cls) ++ "_ivtable_" ++ (← type asm iface)

/-- The table of the interface tables of a class. -/
def indirectionTable (cls : TypeDefId) : Except Fault String :=
  return (← type asm cls) ++ "_itable"

/-- The function that runs the static constructors of a module. -/
def staticInit (module : String) : String := mangle module ++ "_static_init"

end Names

end CilSsa.Lowering
