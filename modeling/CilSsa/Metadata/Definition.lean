import CilSsa.Metadata.Flags
import CilSsa.Metadata.Instruction

/-!
Definitions of types, fields and methods.
-/

namespace CilSsa.Metadata

/-- The four shapes of a type. -/
inductive TypeKind where
  | classType
  | structType
  | enumType
  | interfaceType
deriving DecidableEq, Repr

namespace TypeKind

/-- The shape that attributes give: an interface before anything else, then an enum, and a struct
is a value type that is neither. -/
def ofFlags (flags : TypeFlags) : TypeKind :=
  if flags.contains TypeFlags.interface then .interfaceType
  else if flags.contains TypeFlags.enum then .enumType
  else if flags.contains TypeFlags.valueType then .structType
  else .classType

/-- The attributes that a plain type of the shape has. -/
def flags : TypeKind → TypeFlags
  | .classType => ⟨0⟩
  | .structType => ⟨TypeFlags.valueType⟩
  | .enumType => ⟨TypeFlags.valueType ||| TypeFlags.enum⟩
  | .interfaceType => ⟨TypeFlags.interface ||| TypeFlags.abstract⟩

def name : TypeKind → String
  | .classType => "Class"
  | .structType => "Struct"
  | .enumType => "Enum"
  | .interfaceType => "Interface"

end TypeKind

/-- Who may use a member. -/
inductive Visibility where
  | publicAccess
  | internalAccess
  | protectedAccess
  | privateAccess
deriving DecidableEq, Repr

namespace Visibility

def all : List Visibility :=
  [.publicAccess, .internalAccess, .protectedAccess, .privateAccess]

def name : Visibility → String
  | .publicAccess => "Public"
  | .internalAccess => "Internal"
  | .protectedAccess => "Protected"
  | .privateAccess => "Private"

end Visibility

/-- A type.  Its fields and methods live in the arenas of the assembly. -/
structure TypeDef where
  namespaceName : String
  name : String
  flags : TypeFlags
  base : Option TypeDefId := none
  /-- Interfaces it names itself, in order. -/
  interfaces : List TypeDefId := []
  packing : Option Nat := none
  classSize : Option Nat := none
  fields : List FieldId := []
  methods : List MethodId := []
deriving DecidableEq, Repr

namespace TypeDef

/-- A plain type of the given shape. -/
def ofKind (kind : TypeKind) (namespaceName name : String) : TypeDef :=
  { namespaceName, name, flags := kind.flags }

/-- The shape of the type. -/
def kind (d : TypeDef) : TypeKind := TypeKind.ofFlags d.flags

/-- The name with its namespace, or alone in the global namespace. -/
def fullName (d : TypeDef) : String :=
  if d.namespaceName.isEmpty then d.name else d.namespaceName ++ "." ++ d.name

end TypeDef

structure FieldDef where
  name : String
  declaringType : TypeDefId
  sig : TypeSig
  isStatic : Bool
deriving DecidableEq, Repr

namespace FieldDef

/-- Whether the field was made by a compiler; such fields take no part in layouts. -/
def isGenerated (d : FieldDef) : Bool := d.name.toList.head? = some '<'

end FieldDef

/-- A parameter. -/
structure Param where
  name : String
  sig : TypeSig
deriving DecidableEq, Repr

/-- Locals and instructions. -/
structure MethodBody where
  locals : List TypeSig := []
  instructions : List Instruction
deriving DecidableEq, Repr

/-- A method.  Abstract, interface and external methods have no body. -/
structure MethodDef where
  name : String
  declaringType : TypeDefId
  params : List Param := []
  returnType : TypeSig
  flags : MethodFlags := {}
  visibility : Visibility := .publicAccess
  body : Option MethodBody := none
deriving DecidableEq, Repr

namespace MethodDef

def isStatic (d : MethodDef) : Bool := d.flags.contains MethodFlags.static

/-- Instance methods take the object as their first argument. -/
def hasThis (d : MethodDef) : Bool := !d.isStatic

def isVirtual (d : MethodDef) : Bool := d.flags.contains MethodFlags.virtual

def isAbstract (d : MethodDef) : Bool := d.flags.contains MethodFlags.abstract

def isNewSlot (d : MethodDef) : Bool := d.flags.contains MethodFlags.newSlot

def isConstructor (d : MethodDef) : Bool := d.name = ".ctor"

def isStaticConstructor (d : MethodDef) : Bool := d.name = ".cctor"

/-- The number of arguments, the object included. -/
def argCount (d : MethodDef) : Nat := d.params.length + (if d.hasThis then 1 else 0)

/-- Same name, parameter types and return type. -/
def sameSignature (a b : MethodDef) : Bool :=
  a.name = b.name && a.returnType = b.returnType
    && a.params.map Param.sig = b.params.map Param.sig

end MethodDef

end CilSsa.Metadata
