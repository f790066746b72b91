/-!
Ids of definitions, and the type signatures of fields, parameters, locals and operands.
-/

namespace CilSsa.Metadata

/-- A type definition of an assembly. -/
structure TypeDefId where
  index : Nat
deriving DecidableEq, Repr

/-- A field definition of an assembly. -/
structure FieldId where
  index : Nat
deriving DecidableEq, Repr

/-- A method definition of an assembly. -/
structure MethodId where
  index : Nat
deriving DecidableEq, Repr

/-- A type as a signature names it. -/
inductive TypeSig where
  | void
  | boolean
  | char
  | i1
  | u1
  | i2
  | u2
  | i4
  | u4
  | i8
  | u8
  | intPtr
  | uintPtr
  | r4
  | r8
  | string
  | object
  /-- A class, struct, enum or interface of the assembly. -/
  | named (id : TypeDefId)
  /-- An unmanaged pointer. -/
  | pointer (inner : TypeSig)
  /-- A managed reference. -/
  | byRef (inner : TypeSig)
  /-- A one-dimensional array. -/
  | array (element : TypeSig)
deriving DecidableEq, Repr

namespace TypeSig

/-- Numbers, truth values and characters. -/
def isPrimitive : TypeSig → Bool
  | boolean | char | i1 | u1 | i2 | u2 | i4 | u4 | i8 | u8 | intPtr | uintPtr | r4 | r8 => true
  | _ => false

/-- The two floating-point types. -/
def isFloat : TypeSig → Bool
  | r4 | r8 => true
  | _ => false

/-- Integers without a sign, truth values and characters among them. -/
def isUnsigned : TypeSig → Bool
  | boolean | char | u1 | u2 | u4 | u8 | uintPtr => true
  | _ => false

def isPointerLike : TypeSig → Bool
  | pointer _ | byRef _ => true
  | _ => false

/-- What a pointer or reference points to, or what an array holds. -/
def element? : TypeSig → Option TypeSig
  | pointer inner | byRef inner | array inner => some inner
  | _ => none

/-- The definitions that a signature mentions. -/
def mentions : TypeSig → List TypeDefId
  | named id => [id]
  | pointer inner | byRef inner | array inner => inner.mentions
  | _ => []

end TypeSig

end CilSsa.Metadata
