import CilSsa.Fault
import CilSsa.Metadata.Definition

/-!
An assembly: arenas of types, fields and methods that refer to each other by id.  The first three
types are the roots of the hierarchy.
-/

namespace CilSsa.Metadata

/-- Everything that is compiled together. -/
structure Assembly where
  name : String
  types : Array TypeDef
  fields : Array FieldDef
  methods : Array MethodDef
deriving DecidableEq, Repr

namespace Assembly

def objectType : TypeDefId := ⟨0⟩

/-- `System.ValueType`. -/
def valueType : TypeDefId := ⟨1⟩

def enumType : TypeDefId := ⟨2⟩

/-- The roots with the names they must have. -/
def roots : List (TypeDefId × String) :=
  [(objectType, "System.Object"), (valueType, "System.ValueType"), (enumType, "System.Enum")]

def isRoot (id : TypeDefId) : Bool := decide (id.index < roots.length)

/-- An assembly with the roots only. -/
def ofName (name : String) : Assembly where
  name
  types := #[
    TypeDef.ofKind .classType "System" "Object",
    TypeDef.ofKind .classType "System" "ValueType",
    { TypeDef.ofKind .classType "System" "Enum" with base := some valueType }]
  fields := #[]
  methods := #[]

section Access

variable (asm : Assembly)

def typeDef (id : TypeDefId) : Except Fault TypeDef := Arena.typeDef.entry asm.types id.index

def field (id : FieldId) : Except Fault FieldDef := Arena.field.entry asm.fields id.index

def method (id : MethodId) : Except Fault MethodDef := Arena.method.entry asm.methods id.index

/-- Every type, the roots included. -/
def typeIds : List TypeDefId := (List.range asm.types.size).map TypeDefId.mk

def userTypes : List TypeDefId := asm.typeIds.filter fun id => !isRoot id

def methodIds : List MethodId := (List.range asm.methods.size).map MethodId.mk

def typeName (id : TypeDefId) : Except Fault String := return (← asm.typeDef id).fullName

/-- The shape of a type. -/
def kindOf (id : TypeDefId) : Except Fault TypeKind := return (← asm.typeDef id).kind

/-- The method of this name that `ty` lists, the first if there are several. -/
def methodNamed (ty : TypeDefId) (name : String) : Except Fault (Option MethodId) := do
  (← asm.typeDef ty).methods.findM? fun m => return (← asm.method m).name = name

/-- The field of this name that `ty` lists, the first if there are several. -/
def fieldNamed (ty : TypeDefId) (name : String) : Except Fault (Option FieldId) := do
  (← asm.typeDef ty).fields.findM? fun f => return (← asm.field f).name = name

/-- The type and the name of a method, as diagnostics give them. -/
def qualifiedName (d : MethodDef) : Except Fault String :=
  return (← asm.typeName d.declaringType) ++ "::" ++ d.name

def sigName : TypeSig → Except Fault String
  | .void => return "System.Void"
  | .boolean => return "System.Boolean"
  | .char => return "System.Char"
  | .i1 => return "System.SByte"
  | .u1 => return "System.Byte"
  | .i2 => return "System.Int16"
  | .u2 => return "System.UInt16"
  | .i4 => return "System.Int32"
  | .u4 => return "System.UInt32"
  | .i8 => return "System.Int64"
  | .u8 => return "System.UInt64"
  | .intPtr => return "System.IntPtr"
  | .uintPtr => return "System.UIntPtr"
  | .r4 => return "System.Single"
  | .r8 => return "System.Double"
  | .string => return "System.String"
  | .object => return "System.Object"
  | .named id => asm.typeName id
  | .pointer inner => return (← sigName inner) ++ "*"
  | .byRef inner => return (← sigName inner) ++ "&"
  | .array inner => return (← sigName inner) ++ "[]"

variable {asm}

/-- What a run over the types decides holds of every definition. -/
theorem forall_typeDef {P : TypeDefId → TypeDef → Prop}
    (h : ∀ i < asm.types.size, ∀ d ∈ asm.types[i]?, P ⟨i⟩ d) {ty : TypeDefId} {d : TypeDef}
    (hd : asm.typeDef ty = .ok d) : P ty d := by
  have hfound : asm.types[ty.index]? = some d := Arena.entry_eq_ok_iff.mp hd
  exact h ty.index (Array.getElem?_eq_some_iff.mp hfound).1 d hfound

end Access

section Construction

/-- The base of a type that names none. -/
def defaultBase : TypeKind → Option TypeDefId
  | .classType => some objectType
  | .structType => some valueType
  | .enumType => some enumType
  | .interfaceType => none

/-- Adds a type; a type without a base gets the one of its shape. -/
def addType (asm : Assembly) (d : TypeDef) : Assembly × TypeDefId :=
  let d := { d with base := d.base.or (defaultBase d.kind) }
  ({ asm with types := asm.types.push d }, ⟨asm.types.size⟩)

def addField (asm : Assembly) (ty : TypeDefId) (d : FieldDef) :
    Except Fault (Assembly × FieldId) := do
  let id : FieldId := ⟨asm.fields.size⟩
  let owner ← asm.typeDef ty
  let types := asm.types.setIfInBounds ty.index { owner with fields := owner.fields ++ [id] }
  return ({ asm with types, fields := asm.fields.push { d with declaringType := ty } }, id)

def addMethod (asm : Assembly) (ty : TypeDefId) (d : MethodDef) :
    Except Fault (Assembly × MethodId) := do
  let id : MethodId := ⟨asm.methods.size⟩
  let owner ← asm.typeDef ty
  let types := asm.types.setIfInBounds ty.index { owner with methods := owner.methods ++ [id] }
  return ({ asm with types, methods := asm.methods.push { d with declaringType := ty } }, id)

/-- Gives a method its body, or takes it away. -/
def setBody (asm : Assembly) (id : MethodId) (body : Option MethodBody) :
    Except Fault Assembly := do
  let d ← asm.method id
  return { asm with methods := asm.methods.setIfInBounds id.index { d with body } }

end Construction

end Assembly

end CilSsa.Metadata
